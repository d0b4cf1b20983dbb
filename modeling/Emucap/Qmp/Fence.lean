import Emucap.Qmp.Execute

/-!
# The single-flight fence

Of every run of `execute` and `drain_events`: a response is taken only for the request just written, no event is lost
or returned twice, a poisoned client does nothing. `PoisonsOnError` needs that no socket option fails late.
-/

namespace Emucap.Qmp

open Emucap.Lib

variable (t : Texts)

/-! ## Runs -/

inductive Call where
  | execute (command : String) (arguments : Option Json)
  | drainEvents
  deriving DecidableEq

inductive Outcome where
  | returned (result : Json)
  | failed (error : QmpError)
  | drained (events : List Json)
  /-- the run ends within the call -/
  | cut
  deriving DecidableEq

/-- A call, with the client before and after it; the deeds after it are those of the call. -/
structure Record where
  call : Call
  before : World
  outcome : Outcome
  after : World
  deriving DecidableEq

def perform (call : Call) (w : World) : Record :=
  let start := { w with deeds := [] }
  match call with
  | .drainEvents => ⟨call, start, .drained (drainEvents start).1, (drainEvents start).2⟩
  | .execute command arguments =>
    match executeInner t command arguments start with
    | .ok result u => ⟨call, start, .returned result, u⟩
    | .error (.failed error) u => ⟨call, start, .failed error, u⟩
    | .error _ u => ⟨call, start, .cut, u⟩

def run : List Call → World → List Record
  | [], _ => []
  | call :: rest, w =>
    let r := perform t call w
    if r.outcome = .cut then [r] else r :: run rest r.after

def Connected (start : World) : Prop := ∃ happenings, handshake t (fresh happenings) = .ok () start

/-! ## What a run promises -/

def Touched (deeds : List Deed) : Prop := ∃ bytes ≠ [], Deed.wrote bytes ∈ deeds ∨ Deed.arrived bytes ∈ deeds

/-- A socket option failed after a byte was written or read. -/
def FailsLate (deeds : List Deed) : Prop := ∃ front, deeds = front ++ [.optionFailed] ∧ Touched front

/-- The result, or the error of the emulator, is that of the first message that is no event after the request was
completely written, and the message carries the id of the request. -/
def AnswersOwn (r : Record) : Prop :=
  ∀ command arguments, r.call = .execute command arguments →
    (∃ result, r.outcome = .returned result) ∨
      (∃ errorClass description, r.outcome = .failed (.emulator errorClass description)) →
    ∃ (parts : List (List UInt8)) (mid : List Deed) (message : Json) (bytes : ℕ),
      r.after.deeds = parts.map .wrote ++ .requested r.before.nextId :: (mid ++ [.received message bytes]) ∧
      parts.flatten = lineOf t (request command r.before.nextId arguments) ∧ Waiting mid ∧
      message.get "event" = none ∧ (message.get "id").bind Json.asU64 = some r.before.nextId ∧
      (∀ result, r.outcome = .returned result → message.get "return" = some result) ∧
      ∀ errorClass description, r.outcome = .failed (.emulator errorClass description) →
        ∃ error, message.get "error" = some error

/-- Any other error after the first byte poisons the client. -/
def PoisonsOnError (r : Record) : Prop :=
  ∀ error, r.outcome = .failed error → (∀ errorClass description, error ≠ .emulator errorClass description) →
    Touched r.after.deeds → r.after.poisoned = true

/-- A poisoned client refuses every request, and it writes and reads nothing. -/
def RefusesPoisoned (r : Record) : Prop :=
  r.before.poisoned = true → r.after.poisoned = true ∧ r.after.deeds = [] ∧
    ∀ command arguments, r.call = .execute command arguments → r.outcome = .failed .poisoned

def Record.drained (r : Record) : List Json :=
  match r.outcome with
  | .drained events => events
  | _ => []

def Record.received (r : Record) : List Json := (eventsOf r.after.deeds).map (·.message)

def messages (w : World) : List Json := w.events.map (·.message)

/-- A socket option fails in the call, after a byte was written or read. -/
def LateOptionFailure (r : Record) : Prop := FailsLate r.after.deeds

/-! ## One call -/

structure Fits (r : Record) : Prop where
  answers : AnswersOwn t r
  late : LateOptionFailure r → r.after.poisoned = false ∧ ∃ kind, r.outcome = .failed (.io kind)
  poisons : ¬ LateOptionFailure r → PoisonsOnError r
  refuses : RefusesPoisoned r
  kept : ∃ lost : List Event, lost.length ≤ 1 ∧ (lost ≠ [] → r.before.poisoned = false ∧ r.after.poisoned = true) ∧
    messages r.before ++ r.received = r.drained ++ messages r.after ++ lost.map (·.message)
  budget : Budget r.after

section calls
variable {t} {w u v : World} {new front : List Deed} {lost : List Event} {command : String} {arguments : Option Json}

theorem not_failsLate (h : Deed.optionFailed ∉ new) : ¬ FailsLate new := by
  rintro ⟨front, rfl, -⟩
  simp at h

theorem failsLate_append : FailsLate (front ++ [.optionFailed]) ↔ Touched front := by
  constructor
  · rintro ⟨front', h, htouched⟩
    obtain ⟨rfl, -⟩ := List.append_inj' h rfl
    exact htouched
  · exact fun h => ⟨front, rfl, h⟩

theorem Touched.of_append (h : Touched (front ++ [.optionFailed])) : Touched front := by
  obtain ⟨bytes, hne, hmem⟩ := h
  refine ⟨bytes, hne, ?_⟩
  simpa using hmem

theorem Transfers.no_option (h : Transfers new) : Deed.optionFailed ∉ new := fun hmem => h _ hmem

theorem Ran.trans {more : List Deed} (h : Ran w v new []) (h' : Ran v u more lost) : Ran w u (new ++ more) lost where
  deeds := by rw [h'.deeds, h.deeds, List.append_assoc]
  events := by rw [eventsOf_append, ← List.append_assoc, h.events, List.append_nil, h'.events]
  budget := h'.budget

theorem Ran.kept (h : Ran w u new lost) (hw : w.deeds = []) :
    messages w ++ (eventsOf u.deeds).map (·.message) = messages u ++ lost.map (·.message) := by
  have hdeeds : u.deeds = new := by rw [h.deeds, hw, List.nil_append]
  rw [hdeeds, messages, messages, ← List.map_append, ← List.map_append, h.events]

theorem fits_failed {error : QmpError} (hw : w.deeds = []) (husable : w.poisoned = false)
    (herror : ∀ errorClass description, error ≠ .emulator errorClass description) (hran : Ran w u new lost)
    (hlength : lost.length ≤ 1) (hlost : lost ≠ [] → u.poisoned = true)
    (hlate : FailsLate new → u.poisoned = false ∧ ∃ kind, error = .io kind)
    (hpoisons : ¬ FailsLate new → Touched new → u.poisoned = true) :
    Fits t ⟨.execute command arguments, w, .failed error, u⟩ := by
  have hdeeds : u.deeds = new := by rw [hran.deeds, hw, List.nil_append]
  refine ⟨?_, ?_, ?_, ?_, ⟨lost, hlength, fun h => ⟨husable, hlost h⟩, hran.kept hw⟩, hran.budget⟩
  · rintro _ _ - (⟨result, h⟩ | ⟨errorClass, description, h⟩)
    · exact absurd h nofun
    · exact absurd (Outcome.failed.inj h) (herror errorClass description)
  · intro h
    rw [LateOptionFailure, hdeeds] at h
    obtain ⟨hpoisoned, kind, rfl⟩ := hlate h
    exact ⟨hpoisoned, kind, rfl⟩
  · intro h _ _ _ htouched
    rw [LateOptionFailure, hdeeds] at h
    exact hpoisons h (hdeeds ▸ htouched)
  · exact fun h => absurd (husable.symm.trans h) Bool.false_ne_true

theorem fits_option {kind : IoKind} (hw : w.deeds = []) (husable : w.poisoned = false)
    (hran : Ran w u (front ++ [.optionFailed]) []) (hsame : u.poisoned = false) :
    Fits t ⟨.execute command arguments, w, .failed (.io kind), u⟩ := by
  refine fits_failed hw husable nofun hran (by simp) (absurd rfl) (fun _ => ⟨hsame, kind, rfl⟩) ?_
  intro hnot htouched
  exact absurd ((failsLate_append).mpr htouched.of_append) hnot

theorem fits_cut (hw : w.deeds = []) (husable : w.poisoned = false) (hran : Ran w u new [])
    (hoption : Deed.optionFailed ∉ new) : Fits t ⟨.execute command arguments, w, .cut, u⟩ := by
  have hdeeds : u.deeds = new := by rw [hran.deeds, hw, List.nil_append]
  refine ⟨?_, ?_, ?_, ?_, ⟨[], by simp, absurd rfl, hran.kept hw⟩, hran.budget⟩
  · rintro _ _ - (⟨result, h⟩ | ⟨errorClass, description, h⟩)
    · exact absurd h nofun
    · exact absurd h nofun
  · intro h
    rw [LateOptionFailure, hdeeds] at h
    exact absurd h (not_failsLate hoption)
  · exact fun _ _ h => absurd h nofun
  · exact fun h => absurd (husable.symm.trans h) Bool.false_ne_true

theorem fits_answered {parts : List (List UInt8)} {mid : List Deed} {message : Json} {bytes : ℕ} {outcome : Outcome}
    (hw : w.deeds = []) (husable : w.poisoned = false) (hrequested : Requested t w v command arguments parts)
    (hanswered : Answered v u w.nextId mid message bytes)
    (hresult : ∀ result, outcome = .returned result → message.get "return" = some result)
    (herror : ∀ errorClass description, outcome = .failed (.emulator errorClass description) →
      ∃ error, message.get "error" = some error)
    (houtcome : (∃ result, outcome = .returned result) ∨
      ∃ errorClass description, outcome = .failed (.emulator errorClass description)) :
    Fits t ⟨.execute command arguments, w, outcome, u⟩ := by
  have hran := hrequested.toRan.trans hanswered.toRan
  have hdeeds : u.deeds = parts.map .wrote ++ .requested w.nextId :: (mid ++ [.received message bytes]) := by
    rw [hran.deeds, hw, List.nil_append, List.append_assoc, List.singleton_append]
  have hdrained : Record.drained ⟨.execute command arguments, w, outcome, u⟩ = [] := by
    rcases houtcome with ⟨result, rfl⟩ | ⟨errorClass, description, rfl⟩
    · rfl
    · rfl
  have hnotLate : ¬ FailsLate u.deeds := by
    apply not_failsLate
    have hmid := hanswered.waiting.no_option
    simp [hdeeds, hmid]
  refine ⟨?_, fun h => absurd h hnotLate, ?_, ?_, ⟨[], by simp, absurd rfl, ?_⟩, hran.budget⟩
  · rintro _ _ ⟨⟩ -
    exact ⟨parts, mid, message, bytes, hdeeds, hrequested.text, hanswered.waiting, hanswered.no_event, hanswered.id_eq,
      hresult, herror⟩
  · intro _ error h hnot
    rcases houtcome with ⟨result, rfl⟩ | ⟨errorClass, description, rfl⟩
    · exact absurd h nofun
    · exact absurd (Outcome.failed.inj h).symm (hnot errorClass description)
  · exact fun h => absurd (husable.symm.trans h) Bool.false_ne_true
  · rw [hdrained]
    exact hran.kept hw

theorem ended_fits {parts : List (List UInt8)} {stop : Stop} {outcome : Outcome} (hw : w.deeds = [])
    (husable : w.poisoned = false) (hrequested : Requested t w v command arguments parts)
    (hended : Ended v w.nextId stop u) (houtcome : ∀ error, stop = .failed error → outcome = .failed error)
    (hcut : (∀ error, stop ≠ .failed error) → outcome = .cut) :
    Fits t ⟨.execute command arguments, w, outcome, u⟩ := by
  cases hended with
  | @emulator _ mid message error bytes errorClass description hanswered herror =>
    obtain rfl := houtcome _ rfl
    refine fits_answered hw husable hrequested hanswered nofun ?_ (.inr ⟨errorClass, description, rfl⟩)
    exact fun _ _ _ => ⟨error, herror⟩
  | @poisoned _ new lost error hran hlength hoption hpoisoned herror =>
    obtain rfl := houtcome _ rfl
    have hnotLate : ¬ FailsLate (parts.map .wrote ++ [.requested w.nextId] ++ new) := by
      apply not_failsLate
      simp [hoption]
    exact fits_failed hw husable herror (hrequested.toRan.trans hran) hlength (fun _ => hpoisoned)
      (fun h => absurd h hnotLate) (fun _ _ => hpoisoned)
  | @option _ mid kind hran hwaiting hsame =>
    obtain rfl := houtcome _ rfl
    have htogether := hrequested.toRan.trans hran
    rw [← List.append_assoc] at htogether
    exact fits_option hw husable htogether (hsame.trans hrequested.usable)
  | @cut _ mid _ hwaited hnot =>
    obtain rfl := hcut hnot
    have hmid := hwaited.waiting.no_option
    exact fits_cut hw husable (hrequested.toRan.trans hwaited.toRan) (by simp [hmid])

theorem failed_fits {stop : Stop} {outcome : Outcome} (hw : w.deeds = []) (husable : w.poisoned = false)
    (hran : Ran w v [] []) (hsame : v.poisoned = false) (hfailed : Failed v stop u)
    (houtcome : ∀ error, stop = .failed error → outcome = .failed error)
    (hcut : (∀ error, stop ≠ .failed error) → outcome = .cut) :
    Fits t ⟨.execute command arguments, w, outcome, u⟩ := by
  cases hfailed with
  | @poisoned error _ new hstep htransfers hpoisoned herror =>
    obtain rfl := houtcome _ rfl
    refine fits_failed hw husable herror (hran.step hstep (eventsOf_transfers htransfers)) (by simp) (absurd rfl) ?_
      (fun _ _ => hpoisoned)
    exact fun h => absurd h (not_failsLate htransfers.no_option)
  | @option kind _ new hstep htransfers hsame' =>
    obtain rfl := houtcome _ rfl
    have hevents : eventsOf (new ++ [.optionFailed]) = [] := by
      rw [eventsOf_append, eventsOf_transfers htransfers]
      rfl
    have htogether := hran.step hstep hevents
    rw [List.nil_append] at htogether
    exact fits_option hw husable htogether (hsame'.trans hsame)
  | @cut _ _ hwent hnot =>
    obtain ⟨new, hstep, htransfers, -⟩ := hwent
    obtain rfl := hcut hnot
    exact fits_cut hw husable (hran.step hstep (eventsOf_transfers htransfers)) htransfers.no_option

theorem executed_fits {result : Except Stop Json} {outcome : Outcome} (hw : w.deeds = [])
    (hexecuted : Executed t w command arguments result u)
    (hreturned : ∀ value, result = .ok value → outcome = .returned value)
    (houtcome : ∀ error, result = .error (.failed error) → outcome = .failed error)
    (hcut : ∀ stop, result = .error stop → (∀ error, stop ≠ .failed error) → outcome = .cut) (hbudget : Budget w) :
    Fits t ⟨.execute command arguments, w, outcome, u⟩ := by
  have hstop : ∀ {stop : Stop}, result = .error stop → ∀ error, stop = .failed error → outcome = .failed error :=
    fun hresult error h => houtcome error (hresult.trans (congrArg Except.error h))
  cases hexecuted with
  | fenced hpoisoned =>
    obtain rfl := houtcome _ rfl
    have hnone : eventsOf w.deeds = [] := by rw [hw]; rfl
    refine ⟨?_, ?_, ?_, fun _ => ⟨hpoisoned, hw, fun _ _ _ => rfl⟩, ⟨[], by simp, absurd rfl, ?_⟩, hbudget⟩
    · rintro _ _ - (⟨result, h⟩ | ⟨errorClass, description, h⟩)
      · exact absurd h nofun
      · exact absurd h nofun
    · intro h
      rw [LateOptionFailure, hw] at h
      exact absurd h (not_failsLate List.not_mem_nil)
    · exact fun _ _ _ _ _ => hpoisoned
    · simp [Record.received, Record.drained, hnone]
  | @unsent _ message husable hran =>
    obtain rfl := houtcome _ rfl
    refine fits_failed hw husable nofun hran (by simp) (absurd rfl) ?_ ?_
    · exact fun h => absurd h (not_failsLate List.not_mem_nil)
    · rintro - ⟨bytes, -, hmem⟩
      simp at hmem
  | @unwritten v _ stop husable hran hsame hfailed =>
    exact failed_fits hw husable hran hsame hfailed (hstop rfl) (hcut _ rfl)
  | @ended v _ parts stop hrequested hended =>
    exact ended_fits hw hrequested.before hrequested hended (hstop rfl) (hcut _ rfl)
  | @returned v _ parts mid message value bytes hrequested hanswered hvalue =>
    obtain rfl := hreturned _ rfl
    refine fits_answered hw hrequested.before hrequested hanswered ?_ nofun (.inl ⟨value, rfl⟩)
    rintro _ ⟨⟩
    exact hvalue

theorem perform_fits (call : Call) (hbudget : Budget w) : Fits t (perform t call w) := by
  have hstart : Budget { w with deeds := [] } := ⟨hbudget.count, hbudget.sum, hbudget.bytes⟩
  cases call with
  | drainEvents =>
    refine ⟨(fun _ _ h => by cases h), ?_, (fun _ _ h => by cases h), fun h => ⟨h, rfl, fun _ _ h => by cases h⟩,
      ⟨[], by simp, absurd rfl, ?_⟩, ?_⟩
    · exact fun h => absurd h (not_failsLate List.not_mem_nil)
    · simp [perform, Record.received, Record.drained, drainEvents, messages, eventsOf]
    · exact ⟨Nat.zero_le _, rfl, Nat.zero_le _⟩
  | execute command arguments =>
    have hspec := executeInner_spec (t := t) command arguments hstart
    unfold wp at hspec
    unfold perform
    dsimp only
    split
    next value u heq =>
      rw [heq] at hspec
      exact executed_fits rfl hspec (by simp) (by simp) (by simp) hstart
    next error u heq =>
      rw [heq] at hspec
      exact executed_fits rfl hspec (by simp) (by simp) (by simp) hstart
    next stop u hnot heq =>
      rw [heq] at hspec
      refine executed_fits rfl hspec (by simp) ?_ (fun _ _ _ => rfl) hstart
      rintro error ⟨⟩
      exact absurd rfl (hnot error)

end calls

end Emucap.Qmp
