import Emucap.Qmp.Exchange

/-!
# One request

What a request leaves behind. While it waits for its response it puts events aside (`Waited`): all that were received
stand in the queue, and the queue stays in its budget. The wait ends with the response, or as `Ended` lists; `Executed`
is the same for a whole request.
-/

namespace Emucap.Qmp

open Emucap.Lib

variable {t : Texts} {w u v : World} {e : Stop} {id : ℕ}

/-! ## Events -/

def Deed.event? : Deed → Option Event
  | .received message bytes => if (message.get "event").isSome then some ⟨message, bytes⟩ else none
  | _ => none

def eventsOf (deeds : List Deed) : List Event := deeds.filterMap Deed.event?

theorem eventsOf_append (a b : List Deed) : eventsOf (a ++ b) = eventsOf a ++ eventsOf b := List.filterMap_append

theorem eventsOf_transfers {deeds : List Deed} (h : Transfers deeds) : eventsOf deeds = [] := by
  rw [eventsOf, List.filterMap_eq_nil_iff]
  intro d hd
  have htransfer := h d hd
  cases d with
  | received message bytes => exact absurd htransfer id
  | _ => rfl

/-- The queue is in its budget, and the bytes are those of its lines. -/
structure Budget (w : World) : Prop where
  count : w.events.length ≤ maxPendingEvents
  sum : w.eventBytes = (w.events.map (·.bytes)).sum
  bytes : w.eventBytes ≤ maxPendingEventBytes

theorem Budget.step {new : List Deed} (h : Budget w) (hstep : Step w u new) : Budget u := by
  refine ⟨?_, ?_, ?_⟩
  · rw [hstep.events]
    exact h.count
  · rw [hstep.events, hstep.eventBytes]
    exact h.sum
  · rw [hstep.eventBytes]
    exact h.bytes

/-- The deeds since `w`: every event that was received stands in the queue, up to the one that did not fit. -/
structure Ran (w u : World) (new : List Deed) (lost : List Event) : Prop where
  deeds : u.deeds = w.deeds ++ new
  events : w.events ++ eventsOf new = u.events ++ lost
  budget : Budget u

theorem Ran.step {new more : List Deed} (h : Ran w u new []) (hstep : Step u v more) (hmore : eventsOf more = []) :
    Ran w v (new ++ more) [] where
  deeds := by rw [hstep.deeds, h.deeds, List.append_assoc]
  events := by rw [eventsOf_append, hmore, List.append_nil, h.events, hstep.events]
  budget := h.budget.step hstep

/-! ## Waiting for the response -/

def Deed.IsWaiting : Deed → Prop
  | .wrote _ => True
  | .arrived _ => True
  | .received message _ => (message.get "event").isSome = true
  | _ => False

def Waiting (deeds : List Deed) : Prop := ∀ d ∈ deeds, d.IsWaiting

theorem Transfers.waiting {deeds : List Deed} (h : Transfers deeds) : Waiting deeds := by
  intro d hd
  have htransfer := h d hd
  cases d with
  | wrote bytes => exact trivial
  | arrived bytes => exact trivial
  | requested id => exact htransfer
  | optionFailed => exact htransfer
  | received message bytes => exact absurd htransfer id

theorem Waiting.append {a b : List Deed} (ha : Waiting a) (hb : Waiting b) : Waiting (a ++ b) :=
  fun d hd => (List.mem_append.mp hd).elim (ha d) (hb d)

theorem Waiting.no_option {deeds : List Deed} (h : Waiting deeds) : Deed.optionFailed ∉ deeds := fun hmem => h _ hmem

/-- The response has not come. -/
structure Waited (w u : World) (mid : List Deed) : Prop extends Ran w u mid [] where
  waiting : Waiting mid
  same : u.poisoned = w.poisoned

theorem Waited.went {mid : List Deed} (h : Waited w u mid) (hv : Went u v) : ∃ more, Waited w v (mid ++ more) := by
  obtain ⟨more, hstep, htransfers, hsame⟩ := hv
  exact ⟨more, h.toRan.step hstep (eventsOf_transfers htransfers), h.waiting.append htransfers.waiting,
    hsame.trans h.same⟩

/-- The first message that is no event came, with the id of the request. -/
structure Answered (w u : World) (id : ℕ) (mid : List Deed) (message : Json) (bytes : ℕ) : Prop extends
    Ran w u (mid ++ [.received message bytes]) [] where
  waiting : Waiting mid
  same : u.poisoned = w.poisoned
  no_event : message.get "event" = none
  id_eq : (message.get "id").bind Json.asU64 = some id

inductive Ended (w : World) (id : ℕ) : Stop → World → Prop
  | emulator {u : World} {mid : List Deed} {message error : Json} {bytes : ℕ} {errorClass description : String} :
      Answered w u id mid message bytes → message.get "error" = some error →
      Ended w id (.failed (.emulator errorClass description)) u
  | poisoned {u : World} {new : List Deed} {lost : List Event} {error : QmpError} : Ran w u new lost →
      lost.length ≤ 1 → .optionFailed ∉ new → u.poisoned = true →
      (∀ errorClass description, error ≠ .emulator errorClass description) → Ended w id (.failed error) u
  | option {u : World} {mid : List Deed} {kind : IoKind} : Ran w u (mid ++ [.optionFailed]) [] → Waiting mid →
      u.poisoned = w.poisoned → Ended w id (.failed (.io kind)) u
  | cut {u : World} {mid : List Deed} {e : Stop} : Waited w u mid → (∀ error, e ≠ .failed error) → Ended w id e u

theorem Waited.failed {mid : List Deed} (h : Waited w u mid) (hv : Failed u e v) : Ended w id e v := by
  cases hv with
  | poisoned hstep htransfers hpoisoned herror =>
    refine .poisoned (h.toRan.step hstep (eventsOf_transfers htransfers)) (by simp) ?_ hpoisoned herror
    exact (h.waiting.append htransfers.waiting).no_option
  | @option kind _ new hstep htransfers hsame =>
    have hevents : eventsOf (new ++ [.optionFailed]) = [] := by
      rw [eventsOf_append, eventsOf_transfers htransfers]
      rfl
    have hran := h.toRan.step hstep hevents
    rw [← List.append_assoc] at hran
    exact .option hran (h.waiting.append htransfers.waiting) (hsame.trans h.same)
  | cut hwent herror =>
    obtain ⟨more, hmore⟩ := h.went hwent
    exact .cut hmore herror

theorem ended_poison {α : Type} {new : List Deed} {lost : List Event} {error : QmpError} {Q : α → World → Prop}
    (h : Ran w u new lost) (hlost : lost.length ≤ 1) (hoption : .optionFailed ∉ new)
    (herror : ∀ errorClass description, error ≠ .emulator errorClass description) :
    wp (poison error : Exchange α) Q (Ended w id) u :=
  .poisoned (u := { u with poisoned := true }) ⟨h.deeds, h.events, h.budget.count, h.budget.sum, h.budget.bytes⟩ hlost
    hoption rfl herror

theorem pushEvent_spec {mid : List Deed} {message : Json} {bytes : ℕ} (h : Waited w v mid)
    (hstep : Step v u [.received message bytes]) (hsame : u.poisoned = v.poisoned)
    (hevent : (message.get "event").isSome = true) :
    wp (pushEvent message bytes) (fun _ u' => ∃ mid', Waited w u' mid') (Ended w id) u := by
  have hone : eventsOf [.received message bytes] = [⟨message, bytes⟩] := by
    simp [eventsOf, Deed.event?, hevent]
  have hwaiting : Waiting (mid ++ [.received message bytes]) := by
    refine h.waiting.append ?_
    intro d hd
    rw [List.mem_singleton.mp hd]
    exact hevent
  have hbudget := h.budget.step hstep
  have hdeeds : u.deeds = w.deeds ++ (mid ++ [.received message bytes]) := by
    rw [hstep.deeds, h.deeds, List.append_assoc]
  have hevents : w.events ++ eventsOf (mid ++ [.received message bytes]) = u.events ++ [⟨message, bytes⟩] := by
    rw [eventsOf_append, hone, ← List.append_assoc, h.events, List.append_nil, hstep.events]
  rw [pushEvent, wp_bind, wp_get]
  split
  · exact ended_poison ⟨hdeeds, hevents, hbudget⟩ (by simp) hwaiting.no_option nofun
  next hroom =>
    rw [not_or, not_le, not_lt] at hroom
    refine ⟨_, ⟨hdeeds, ?_, ?_, ?_, ?_⟩, hwaiting, hsame.trans h.same⟩
    · rw [List.append_nil]
      exact hevents
    · show (u.events ++ [_]).length ≤ maxPendingEvents
      rw [List.length_append, List.length_singleton]
      omega
    · show u.eventBytes + bytes = ((u.events ++ [Event.mk message bytes]).map (·.bytes)).sum
      rw [List.map_append, List.sum_append, hbudget.sum]
      simp
    · have hbytes := hbudget.bytes
      show u.eventBytes + bytes ≤ maxPendingEventBytes
      omega

theorem answer_spec {mid : List Deed} {message : Json} {bytes : ℕ} (h : Waited w v mid)
    (hstep : Step v u [.received message bytes]) (hsame : u.poisoned = v.poisoned)
    (hevent : (message.get "event").isSome = false) :
    wp (answer t id message)
      (fun result u' => ∃ mid message bytes, Answered w u' id mid message bytes ∧ message.get "return" = some result)
      (Ended w id) u := by
  have hnone : eventsOf [.received message bytes] = [] := by simp [eventsOf, Deed.event?, hevent]
  have hran := h.toRan.step hstep hnone
  have hoption : Deed.optionFailed ∉ mid ++ [.received message bytes] := by
    rw [List.mem_append, not_or]
    exact ⟨h.waiting.no_option, by simp⟩
  have hno : message.get "event" = none := by simpa using hevent
  rw [answer]
  split
  · exact ended_poison hran (by simp) hoption nofun
  next hid =>
    have hanswered : Answered w u id mid message bytes :=
      { hran with
        waiting := h.waiting
        same := hsame.trans h.same
        no_event := hno
        id_eq := not_not.mp hid }
    split
    next result hresult => exact ⟨mid, message, bytes, hanswered, hresult⟩
    next error _ herror => exact .emulator hanswered herror
    next => exact ended_poison hran (by simp) hoption nofun

theorem responseRound_spec {mid : List Deed} (h : Waited w u mid) :
    wp (responseRound t id)
      (fun a u' => (∀ result, a = some result → ∃ mid message bytes, Answered w u' id mid message bytes ∧
          message.get "return" = some result) ∧
        (a = none → ∃ mid', Waited w u' mid')) (Ended w id) u := by
  rw [responseRound, wp_bind]
  refine wp_mono (readValue_spec u) ?_ (fun e v hv => h.failed hv)
  rintro ⟨message, bytes⟩ u' ⟨v, hwent, hstep, hsame⟩
  obtain ⟨more, hwaited⟩ := h.went hwent
  dsimp only
  split
  next hevent =>
    rw [wp_bind]
    refine wp_mono (pushEvent_spec hwaited hstep hsame hevent) ?_ (fun _ _ h => h)
    exact fun _ _ h => ⟨nofun, fun _ => h⟩
  next hevent =>
    rw [wp_map]
    refine wp_mono (answer_spec hwaited hstep hsame (by simpa using hevent)) ?_ (fun _ _ h => h)
    intro result u'' hresult
    refine ⟨?_, nofun⟩
    rintro _ ⟨⟩
    exact hresult

theorem awaitResponse_spec (hbudget : Budget w) :
    wp (awaitResponse t id)
      (fun result u => ∃ mid message bytes, Answered w u id mid message bytes ∧ message.get "return" = some result)
      (Ended w id) w := by
  refine wp_untilValue (I := fun u => ∃ mid, Waited w u mid) (E := Ended w id) ?_ ?_ _ ⟨[], ⟨?_, ?_, hbudget⟩, ?_, rfl⟩
  · rintro u ⟨mid, hmid⟩
    exact responseRound_spec hmid
  · rintro u ⟨mid, hmid⟩
    exact .cut hmid nofun
  · exact (List.append_nil _).symm
  · rw [List.append_nil]
    exact List.append_nil _
  · exact fun d hd => absurd hd List.not_mem_nil

/-! ## A whole request -/

structure Requested (t : Texts) (w u : World) (command : String) (arguments : Option Json)
    (parts : List (List UInt8)) : Prop extends Ran w u (parts.map .wrote ++ [.requested w.nextId]) [] where
  text : parts.flatten = lineOf t (request command w.nextId arguments)
  before : w.poisoned = false
  usable : u.poisoned = false

inductive Executed (t : Texts) (w : World) (command : String) (arguments : Option Json) :
    Except Stop Json → World → Prop
  | fenced : w.poisoned = true → Executed t w command arguments (.error (.failed .poisoned)) w
  /-- nothing was written: there is no id left, or the arguments are no object -/
  | unsent {u : World} {message : String} : w.poisoned = false → Ran w u [] [] →
      Executed t w command arguments (.error (.failed (.protocol message))) u
  | unwritten {v u : World} {e : Stop} : w.poisoned = false → Ran w v [] [] → v.poisoned = false → Failed v e u →
      Executed t w command arguments (.error e) u
  | ended {v u : World} {parts : List (List UInt8)} {e : Stop} : Requested t w v command arguments parts →
      Ended v w.nextId e u → Executed t w command arguments (.error e) u
  | returned {v u : World} {parts : List (List UInt8)} {mid : List Deed} {message result : Json} {bytes : ℕ} :
      Requested t w v command arguments parts → Answered v u w.nextId mid message bytes →
      message.get "return" = some result → Executed t w command arguments (.ok result) u

theorem ran_nil (hbudget : Budget w) (hevents : u.events = w.events) (hbytes : u.eventBytes = w.eventBytes)
    (hdeeds : u.deeds = w.deeds) : Ran w u [] [] where
  deeds := by rw [hdeeds, List.append_nil]
  events := by rw [hevents]; rfl
  budget := by
    refine ⟨?_, ?_, ?_⟩
    · rw [hevents]
      exact hbudget.count
    · rw [hevents, hbytes]
      exact hbudget.sum
    · rw [hbytes]
      exact hbudget.bytes

theorem executeInner_spec (command : String) (arguments : Option Json) (hbudget : Budget w) :
    wp (executeInner t command arguments) (fun result => Executed t w command arguments (.ok result))
      (fun e => Executed t w command arguments (.error e)) w := by
  rw [executeInner, wp_bind, ensureUsable, wp_bind, wp_get]
  by_cases hpoisoned : w.poisoned = true
  · rw [if_pos hpoisoned]
    exact .fenced hpoisoned
  · have husable : w.poisoned = false := by simpa using hpoisoned
    rw [if_neg hpoisoned, wp_pure, wp_bind, takeId, wp_bind, wp_get]
    cases hid : checkedAdd w.nextId 1 with
    | none => exact .unsent husable (ran_nil hbudget rfl rfl rfl)
    | some following =>
      show wp _ _ _ { w with nextId := following }
      have hran : Ran w { w with nextId := following } [] [] := ran_nil hbudget rfl rfl rfl
      split
      · exact .unsent husable hran
      · rw [wp_bind]
        refine wp_mono (writeValue_spec _ _) ?_ (fun e u hu => .unwritten husable hran husable hu)
        rintro _ u ⟨parts, htext, hstep, hsame⟩
        have hwritten : Ran w u (parts.map .wrote) [] :=
          hran.step hstep (eventsOf_transfers (transfers_wrote parts))
        have hrequested : Requested t w { u with deeds := u.deeds ++ [.requested w.nextId] } command arguments parts :=
          { hwritten.step (show Step u { u with deeds := u.deeds ++ [.requested w.nextId] } [.requested w.nextId] from
              ⟨rfl, rfl, rfl, rfl⟩) rfl with
            text := htext
            before := husable
            usable := hsame.trans husable }
        rw [wp_bind]
        show wp (awaitResponse t w.nextId) _ _ { u with deeds := u.deeds ++ [.requested w.nextId] }
        refine wp_mono (awaitResponse_spec hrequested.budget) ?_ (fun e v hv => .ended hrequested hv)
        rintro result v ⟨mid, message, bytes, hanswered, hresult⟩
        exact .returned hrequested hanswered hresult

end Emucap.Qmp
