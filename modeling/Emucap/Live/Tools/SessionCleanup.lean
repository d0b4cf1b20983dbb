import Emucap.Lib.Traced
import Emucap.Live.Link

/-!
# Cleanup calls across a reconnect

`call_session_cleanup` (`live/tools.rs`) delivers an idempotent call, in up to four rounds while the launch is the one
it began with. The link is any `EmulatorLink`; a cleanup leaves a mark of what `must_preflight` decided.
-/

namespace Emucap.Live

open Emucap.Lib

/-! ## Links -/

/-- What a caller sees of an `EmulatorLink`, over the states that the link goes through. -/
structure EmulatorLink (σ : Type) where
  call : String → Json → σ → Except LinkError Json × σ
  supportsSessionReconnect : σ → Bool
  /-- `capabilities().identity.launch_id` -/
  launchId : σ → Option String
  /-- `capabilities().protocol_version` -/
  protocolVersion : σ → ℕ
  prepareReconnect : σ → σ

inductive LinkStep where
  | called (method : String) (params : Json) (answer : Except LinkError Json)
  /-- a call or an observation that was not made, since the deadline had passed -/
  | late
  /-- a cleanup begins, with what `must_preflight` decided -/
  | cleanup (method : String) (params : Json) (preflight : Except LinkError Bool)
  /-- the caller's own observation, and whether it succeeded -/
  | observed (ok : Bool)

def LinkStep.IsFault : LinkStep → Prop
  | .called _ _ (.error _) => True
  | .late => True
  | _ => False

instance : DecidablePred LinkStep.IsFault
  | .called _ _ (.error _) => isTrue trivial
  | .called _ _ (.ok _) => isFalse id
  | .late => isTrue trivial
  | .cleanup _ _ _ => isFalse id
  | .observed _ => isFalse id

def LinkStep.IsStep : LinkStep → Prop
  | .called method _ _ => method = "step"
  | _ => False

def LinkStep.IsObserved : LinkStep → Prop
  | .observed _ => True
  | _ => False

abbrev OnLink (ε σ : Type) := EStateM ε (Traced σ LinkStep)

structure LinkTexts where
  display : LinkError → String
  debugLaunch : Option String → String

variable {σ : Type}

def EmulatorLink.issue (link : EmulatorLink σ) (method : String) (params : Json) : OnLink LinkError σ Json := do
  let answer ← onState (link.call method params)
  note (.called method params answer)
  fromExcept answer

/-! ## Session cleanup -/

def sessionCleanupAttempts : ℕ := 3

def badState (message : String) : LinkError := .emulator "bad_state" message

def mustPreflight (link : EmulatorLink σ) (expectedLaunchId : Option String) (s : σ) : Except LinkError Bool :=
  match expectedLaunchId with
  | some expected =>
    if link.launchId s = some expected then .ok false
    else if (link.launchId s).isSome then .error (badState "launch generation changed before session cleanup")
    else if link.supportsSessionReconnect s then .ok true
    else .error (badState "launch generation is unavailable before session cleanup")
  | none =>
    if link.supportsSessionReconnect s ∧ link.protocolVersion s = 0 then
      .error (badState "launch generation is unavailable before reconnecting session cleanup")
    else .ok false

/-- An error that leaves open whether the call arrived. -/
def LinkError.isAmbiguous : LinkError → Bool
  | .notConnected => true
  | .timeout => true
  | _ => false

def recoverCleanup (texts : LinkTexts) (link : EmulatorLink σ) (method : String) (params : Json) (expected : String) :
    ℕ → LinkError → OnLink LinkError σ Json
  | 0, last => throw last
  | rounds + 1, _ => do
    onState fun s => ((), link.prepareReconnect s)
    match ← attempt (link.issue "status" (.obj [])) with
    | .error e => if e.isAmbiguous then recoverCleanup texts link method params expected rounds e else throw e
    | .ok status =>
      let actual ← onState fun s => (link.launchId s, s)
      if actual ≠ some expected then
        throw (badState (s!"launch generation changed while recovering session cleanup (expected {expected}, got "
          ++ texts.debugLaunch actual ++ ")"))
      else if method = "status" then pure status
      else
        match ← attempt (link.issue method params) with
        | .ok value => pure value
        | .error e => if e.isAmbiguous then recoverCleanup texts link method params expected rounds e else throw e

/-- What follows the direct call, or stands in its place. -/
def recoverIfExpected (texts : LinkTexts) (link : EmulatorLink σ) (method : String) (params : Json)
    (expectedLaunchId : Option String) (last : LinkError) : OnLink LinkError σ Json :=
  match expectedLaunchId with
  | none => throw last
  | some expected => recoverCleanup texts link method params expected sessionCleanupAttempts last

def callSessionCleanup (texts : LinkTexts) (link : EmulatorLink σ) (method : String) (params : Json)
    (expectedLaunchId : Option String) : OnLink LinkError σ Json := do
  let reconnectable ← onState fun s => (link.supportsSessionReconnect s, s)
  let preflight ← onState fun s => (mustPreflight link expectedLaunchId s, s)
  note (.cleanup method params preflight)
  if ← fromExcept preflight then recoverIfExpected texts link method params expectedLaunchId .notConnected
  else
    match ← attempt (link.issue method params) with
    | .ok value => pure value
    | .error e =>
      if e.isAmbiguous ∧ reconnectable ∧ expectedLaunchId.isSome then
        recoverIfExpected texts link method params expectedLaunchId e
      else throw e

/-! ## What a cleanup leaves in the trace -/

def LinkStep.IsCallOf (method : String) (params : Json) : LinkStep → Prop
  | .called m p _ => m = method ∧ p = params ∨ m = "status"
  | _ => False

/-- The trace of a cleanup: its mark, and then the call itself unless the launch has to be confirmed first. -/
def AttemptOf (link : EmulatorLink σ) (expectedLaunchId : Option String) (method : String) (params : Json)
    (trace : List LinkStep) : Prop :=
  ∃ s calls, trace = .cleanup method params (mustPreflight link expectedLaunchId s) :: calls ∧
    (∀ e ∈ calls, e.IsCallOf method params) ∧
    (mustPreflight link expectedLaunchId s = .ok false → ∃ answer, calls.head? = some (.called method params answer))

variable {texts : LinkTexts} {link : EmulatorLink σ} {method : String} {params : Json}

theorem emits_issue (link : EmulatorLink σ) (method : String) (params : Json) :
    Emits (link.issue method params) (fun r new => new = [.called method params r]) := by
  refine emits_onState_bind fun s => ?_
  exact emits_note_bind (P := fun r new => r = (link.call method params s).1 ∧ new = [])
    (emits_fromExcept ⟨rfl, rfl⟩) (by rintro r new ⟨rfl, rfl⟩; rfl)

theorem recoverCleanup_emits (expected : String) (rounds : ℕ) (last : LinkError) :
    Emits (recoverCleanup texts link method params expected rounds last)
      (fun _ new => ∀ e ∈ new, e.IsCallOf method params) := by
  have hstatus : ∀ {r : Except LinkError Json} {new : List LinkStep}, new = [.called "status" (.obj []) r] →
      ∀ e ∈ new, e.IsCallOf method params := by
    rintro r new rfl e he
    rw [List.mem_singleton.mp he]
    exact .inr rfl
  have hcall : ∀ {r : Except LinkError Json} {new : List LinkStep}, new = [.called method params r] →
      ∀ e ∈ new, e.IsCallOf method params := by
    rintro r new rfl e he
    rw [List.mem_singleton.mp he]
    exact .inl ⟨rfl, rfl⟩
  have happend : ∀ {before new : List LinkStep}, (∀ e ∈ before, e.IsCallOf method params) →
      (∀ e ∈ new, e.IsCallOf method params) → ∀ e ∈ before ++ new, e.IsCallOf method params := by
    intro before new hbefore hnew e he
    exact (List.mem_append.mp he).elim (hbefore e) (hnew e)
  induction rounds generalizing last with
  | zero => exact emits_throw (by simp)
  | succ rounds ih =>
    rw [recoverCleanup]
    refine emits_onState_bind fun s => ?_
    refine ((emits_issue link "status" (.obj [])).attempt (Q := fun _ new => ∀ e ∈ new, e.IsCallOf method params)
      fun r new h => hstatus h).bind (Q := fun _ _ new => ∀ e ∈ new, e.IsCallOf method params) ?_
      (fun _ _ _ _ => happend) (fun _ _ h => h)
    intro r
    cases r with
    | error e =>
      dsimp only
      split
      · exact ih e
      · exact emits_throw (by simp)
    | ok status =>
      refine emits_onState_bind fun s => ?_
      dsimp only
      split
      · exact emits_throw (by simp)
      split
      · exact emits_pure (by simp)
      refine ((emits_issue link method params).attempt (Q := fun _ new => ∀ e ∈ new, e.IsCallOf method params)
        fun r new h => hcall h).bind (Q := fun _ _ new => ∀ e ∈ new, e.IsCallOf method params) ?_
        (fun _ _ _ _ => happend) (fun _ _ h => h)
      intro r
      cases r with
      | ok value => exact emits_pure (by simp)
      | error e =>
        dsimp only
        split
        · exact ih e
        · exact emits_throw (by simp)

theorem recoverIfExpected_emits (expectedLaunchId : Option String) (last : LinkError) :
    Emits (recoverIfExpected texts link method params expectedLaunchId last)
      (fun _ new => ∀ e ∈ new, e.IsCallOf method params) := by
  cases expectedLaunchId with
  | none => exact emits_throw (by simp)
  | some expected => exact recoverCleanup_emits expected sessionCleanupAttempts last

theorem callSessionCleanup_emits (expectedLaunchId : Option String) :
    Emits (callSessionCleanup texts link method params expectedLaunchId)
      (fun _ new => AttemptOf link expectedLaunchId method params new) := by
  refine emits_onState_bind fun s => emits_onState_bind fun s' => ?_
  dsimp only
  cases hpreflight : mustPreflight link expectedLaunchId s' with
  | error e =>
    refine emits_note_bind (emits_throw (P := fun _ new => new = []) rfl) ?_
    rintro r new rfl
    exact ⟨s', [], by rw [hpreflight], by simp, by simp [hpreflight]⟩
  | ok preflight =>
    cases preflight with
    | true =>
      refine emits_note_bind (recoverIfExpected_emits expectedLaunchId .notConnected) ?_
      intro r new hnew
      exact ⟨s', new, by rw [hpreflight], hnew, by simp [hpreflight]⟩
    | false =>
      refine emits_note_bind (P := fun _ new => ∃ answer calls, new = .called method params answer :: calls ∧
        ∀ e ∈ calls, e.IsCallOf method params) ?_ ?_
      · refine ((emits_issue link method params).attempt
          (Q := fun _ new => ∃ answer, new = [.called method params answer]) fun r new h => ⟨r, h⟩).bind
          (Q := fun _ _ new => ∀ e ∈ new, e.IsCallOf method params) ?_ ?_ ?_
        · intro r
          cases r with
          | ok value => exact emits_pure (by simp)
          | error e =>
            dsimp only
            split
            · exact recoverIfExpected_emits expectedLaunchId e
            · exact emits_throw (by simp)
        · rintro r before r' new ⟨answer, rfl⟩ hnew
          exact ⟨answer, new, rfl, hnew⟩
        · rintro e before ⟨answer, rfl⟩
          exact ⟨answer, [], rfl, by simp⟩
      · rintro r new ⟨answer, calls, rfl, hcalls⟩
        refine ⟨s', _, by rw [hpreflight], ?_, fun _ => ⟨answer, rfl⟩⟩
        intro e he
        rcases List.mem_cons.mp he with rfl | he
        · exact .inl ⟨rfl, rfl⟩
        · exact hcalls e he

end Emucap.Live
