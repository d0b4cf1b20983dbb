import Emucap.Live.Reconnect.Sessions

/-!
# Every request is answered once

The log of a session is a dialogue (`Talk`): one turn adds entries that the dialogue allows, whatever the split of the
lines between the two readers (`turn_spec`). The producer's mode says where the dialogue stands (`Stands`).
-/

namespace Emucap.Live.Reconnect

open Emucap.Lib

/-! ## Lines and their answers -/

def requestOf (line : Line) : Option Request := line.parse.bind Request.fromValue

/-- The line wants an answer: it is neither blank nor a lifecycle event. -/
def Asks (line : Line) : Prop :=
  line.isBlank = false ∧ ∀ v event, line.parse = some v → SessionEvent.fromEnvelope v ≠ .ok (some event)

/-- The response carries the identifier of the line's request. -/
def Own (line : Line) (r : Response) : Prop := ∀ request, requestOf line = some request → r.id = request.id

/-- The answer that a request gets while another one runs. -/
def Aside (line : Line) (r : Response) : Prop :=
  ∃ request, requestOf line = some request ∧
    (request.v ≠ protocolVersion ∧ r = errorResponse request.id "protocol_error" "unsupported protocol version" ∨
      request.method = "cancel_operation" ∧ (r = statusResponse request.id "requested" ∨
        r = statusResponse request.id "not_active" ∨
        r = errorResponse request.id "bad_params" "invalid cancellation identity" ∧
          ((OperationKey.fromValue request.params).filter (fun target => target.Valid) = none ∨
            (OperationKey.fromValue (request.params.remove attachmentField)).filter (fun target => target.Valid) = none)) ∨
      request.method ≠ "cancel_operation" ∧ r = errorResponse request.id "busy" "native operation is active")

abbrev Talk := Dialogue.Talk Asks Own Aside

abbrev Steps := Dialogue.Steps Asks Own Aside

/-! ## A line while nothing runs -/

/-- The producers differ only in their route, their mode and their calls. -/
structure Same (p p' : Producer) : Prop where
  position : p'.position = p.position
  unread : p'.unread = p.unread
  written : p'.written = p.written

def Execution.Fresh (x : Execution) : Prop := x.cancelled = false ∧ x.transportError = none ∧ x.sessionEvent = none

def Mode.Runs (id : ℕ) (mode : Mode) : Prop := mode = .serving id none ∨ ∃ x, mode = .executing x ∧ x.id = id ∧ x.Fresh

/-- What the idle loop can do with a line. -/
inductive Received (p : Producer) (c : Choice) (line : Line) (receive : Choice → Producer) : Prop
  | skipped : ¬ Asks line → (∀ w, Same p (receive { c with write := w }) ∧
      ((receive { c with write := w }).mode = .idle ∨ ∃ r, (receive { c with write := w }).mode = .ended r)) →
      Received p c line receive
  | answered (r : Response) : Own line r →
      (∀ w, receive { c with write := w } = p.write { c with write := w } r) → Received p c line receive
  | started (id : ℕ) : (∀ request, requestOf line = some request → id = request.id) →
      (∀ w, Same p (receive { c with write := w }) ∧ (receive { c with write := w }).mode.Runs id) →
      Received p c line receive
  | ended : (∀ w, Same p (receive { c with write := w }) ∧ ∃ r, (receive { c with write := w }).mode = .ended r) →
      Received p c line receive

section
variable {p : Producer} {c : Choice} {line : Line} {position : ℕ}

theorem not_asks_of_blank (h : line.isBlank = true) : ¬ Asks line := by
  intro hasks
  have hnot := hasks.1
  rw [h] at hnot
  cases hnot

theorem same_refl (p : Producer) : Same p p := ⟨rfl, rfl, rfl⟩

theorem applyEvent_spec (hmode : p.mode = .idle) (event : SessionEvent) :
    Same p (p.applyEvent c event) ∧ ((p.applyEvent c event).mode = .idle ∨ ∃ r, (p.applyEvent c event).mode = .ended r) := by
  unfold Producer.applyEvent
  split
  · exact ⟨⟨rfl, rfl, rfl⟩, .inr ⟨_, rfl⟩⟩
  · exact ⟨⟨rfl, rfl, rfl⟩, .inl hmode⟩

theorem dispatch_spec (a : TemporalAdmission) (attachment : Attachment) (request : Request) :
    Same p (p.dispatch a c position attachment request) ∧
      ((p.dispatch a c position attachment request).mode.Runs request.id ∨
        ∃ r, (p.dispatch a c position attachment request).mode = .ended r) := by
  unfold Producer.dispatch
  split
  · exact ⟨⟨rfl, rfl, rfl⟩, .inr ⟨_, rfl⟩⟩
  · exact ⟨⟨rfl, rfl, rfl⟩, .inr ⟨_, rfl⟩⟩
  · dsimp only
    split
    · exact ⟨⟨rfl, rfl, rfl⟩, .inl (.inl rfl)⟩
    · split
      · exact ⟨⟨rfl, rfl, rfl⟩, .inr ⟨_, rfl⟩⟩
      · split_ifs
        · exact ⟨⟨rfl, rfl, rfl⟩, .inr ⟨_, rfl⟩⟩
        · split
          · exact ⟨⟨rfl, rfl, rfl⟩, .inr ⟨_, rfl⟩⟩
          · exact ⟨⟨rfl, rfl, rfl⟩, .inr ⟨_, rfl⟩⟩
          · exact ⟨⟨rfl, rfl, rfl⟩, .inl (.inr ⟨_, rfl, rfl, rfl, rfl, rfl⟩)⟩

theorem Received.of_fail {receive : Choice → Producer} (h : ∀ w, ∃ fault, receive { c with write := w } = p.fail fault) :
    Received p c line receive := by
  refine .ended fun w => ?_
  obtain ⟨fault, hw⟩ := h w
  rw [hw]
  exact ⟨⟨rfl, rfl, rfl⟩, _, rfl⟩

theorem request_received (a : TemporalAdmission) {value : Json} (hparse : line.parse = some value) :
    Received p c line (fun c => p.request a c position value) := by
  unfold Producer.request
  split_ifs
  · exact .of_fail fun w => ⟨_, rfl⟩
  cases hrequest : Request.fromValue value with
  | none => exact .of_fail fun w => ⟨_, rfl⟩
  | some request =>
    have hline : requestOf line = some request := by rw [requestOf, hparse, Option.bind_some, hrequest]
    have hown : ∀ r, requestOf line = some r → request.id = r.id := by
      intro r hr
      rw [hline] at hr
      cases hr
      rfl
    dsimp only
    split_ifs
    · exact .of_fail fun w => ⟨_, rfl⟩
    cases hstamp : p.route.requestAttachment request with
    | error fault => exact .of_fail fun w => ⟨_, rfl⟩
    | ok stamped =>
      obtain ⟨attachment, request'⟩ := stamped
      have hid : request'.id = request.id := by
        unfold Route.requestAttachment at hstamp
        split at hstamp
        · cases hstamp
        · dsimp only at hstamp
          split at hstamp
          · split at hstamp
            · cases hstamp
            · split_ifs at hstamp
              cases hstamp
              rfl
          · cases hstamp
            rfl
          · cases hstamp
      dsimp only
      split_ifs
      · cases OperationKey.fromValue request'.params with
        | none => exact .of_fail fun w => ⟨_, rfl⟩
        | some target =>
          dsimp only
          cases target.validate with
          | error message => exact .of_fail fun w => ⟨_, rfl⟩
          | ok =>
            refine .answered (statusResponse request'.id "not_active") (fun r hr => ?_) fun w => rfl
            exact hid.trans (hown r hr)
      · obtain ⟨hsame, hruns | hended⟩ := @dispatch_spec p c position a attachment request'
        · exact .started request'.id (fun r hr => hid.trans (hown r hr)) fun w => ⟨hsame, hruns⟩
        · exact .ended fun w => ⟨hsame, hended⟩

theorem receive_received (a : TemporalAdmission) (hmode : p.mode = .idle) :
    Received p c line (fun c => p.receive a c position line) := by
  unfold Producer.receive
  by_cases hblank : line.isBlank = true
  · simp only [if_pos hblank]
    exact .skipped (not_asks_of_blank hblank) fun w => ⟨same_refl p, .inl hmode⟩
  simp only [if_neg hblank]
  cases hparse : line.parse with
  | none => exact .of_fail fun w => ⟨_, rfl⟩
  | some value =>
    dsimp only
    cases henvelope : SessionEvent.fromEnvelope value with
    | error e => exact .of_fail fun w => ⟨_, rfl⟩
    | ok event =>
      cases event with
      | none => exact request_received a hparse
      | some event =>
        refine .skipped (fun hasks => hasks.2 value event hparse henvelope) fun w => ?_
        exact applyEvent_spec hmode event

theorem bridgeReceive_received (admission : Option TemporalAdmission) (hmode : p.mode = .idle) :
    Received p c line (fun c => p.bridgeReceive admission c line) := by
  unfold Producer.bridgeReceive
  by_cases hblank : line.isBlank = true
  · simp only [if_pos hblank]
    exact .skipped (not_asks_of_blank hblank) fun w => ⟨same_refl p, .inl hmode⟩
  simp only [if_neg hblank]
  cases hrequest : line.parse.bind Request.fromValue with
  | none =>
    refine .answered (errorResponse 0 "protocol_error" "malformed request") (fun r hr => ?_) fun w => rfl
    rw [requestOf, hrequest] at hr
    cases hr
  | some request =>
    have hown : ∀ r, requestOf line = some r → request.id = r.id := by
      intro r hr
      rw [requestOf, hrequest] at hr
      cases hr
      rfl
    have hserving : ∀ receive : Choice → Producer,
        (∀ w, receive { c with write := w } = { p with mode := .serving request.id none }) →
        Received p c line receive := by
      intro receive hreceive
      refine .started request.id hown fun w => ?_
      rw [hreceive w]
      exact ⟨⟨rfl, rfl, rfl⟩, .inl rfl⟩
    dsimp only
    cases admission with
    | none => exact hserving _ fun w => rfl
    | some a =>
      dsimp only
      split_ifs
      · exact .answered (statusResponse request.id "not_active") hown fun w => rfl
      cases a.admitKey request with
      | error fault => exact .answered (errorResponse request.id "bad_params" fault.text) hown fun w => rfl
      | ok key =>
        cases key with
        | none => exact hserving _ fun w => rfl
        | some key =>
          dsimp only
          cases key.validate with
          | error message => exact .of_fail fun w => ⟨_, rfl⟩
          | ok =>
            cases hread : c.readTimeout with
            | error reason => exact .of_fail fun w => ⟨.outside reason, by simp only [hread]⟩
            | ok =>
              refine .started request.id hown fun w => ?_
              simp only [hread]
              exact ⟨⟨rfl, rfl, rfl⟩, .inr ⟨_, rfl, rfl, rfl, rfl, rfl⟩⟩

theorem received (k : Kind) (hmode : p.mode = .idle) : Received p c line (fun c => k.receive p c position line) := by
  cases k with
  | owned a => exact receive_received a hmode
  | bridge admission => exact bridgeReceive_received admission hmode

end

/-! ## One turn -/

def answersOf (entries : List Entry) : List Response := entries.filterMap fun e => e.answers.map Prod.snd

def linesOf (entries : List Entry) : List Line :=
  entries.filterMap fun
    | .consumed _ line => some line
    | _ => none

/-- The request `id` at `active` is running, and the transport holds. -/
def Running (active id : ℕ) (st : Dialogue.State Line) : Prop :=
  ∃ line, st = ⟨st.next, some (active, line), none, false⟩ ∧ ∀ request, requestOf line = some request → id = request.id

/-- Where the dialogue stands, as long as the transport holds. -/
def Stands (active : ℕ) (st : Dialogue.State Line) : Mode → Prop
  | .idle => st = ⟨st.next, none, none, false⟩
  | .serving id none => Running active id st
  | .executing x => x.transportError = none → Running active x.id st
  | .serving _ (some _) | .ended _ => True

/-- What one turn did, from a dialogue that stood at `st`. -/
structure TurnSpec (active : ℕ) (p p' : Producer) (entries : List Entry) (st : Dialogue.State Line) : Prop where
  talk : ∃ st', Steps st entries st' ∧ st'.next = p'.position ∧ Stands active st' p'.mode
  written : p'.written = p.written ++ answersOf entries
  unread : p.unread = linesOf entries ++ p'.unread

section
variable {p p' : Producer} {c : Choice} {active : ℕ} {st : Dialogue.State Line}

theorem TurnSpec.silent (hnext : st.next = p.position) (hsame : Same p p') (hstands : Stands active st p'.mode) :
    TurnSpec active p p' [] st := by
  refine ⟨⟨st, .nil, hnext.trans hsame.position.symm, hstands⟩, ?_, hsame.unread.symm⟩
  rw [hsame.written]
  exact (List.append_nil _).symm

theorem stands_ended {mode : Mode} (h : ∃ r, mode = .ended r) : Stands active st mode := by
  obtain ⟨r, rfl⟩ := h
  trivial

theorem write_spec {c : Choice} {r : Response} (p : Producer) :
    (∃ reason, c.write = .error reason ∧ p.write c r = p.fail (.outside reason)) ∨
      c.write = .ok () ∧ p.write c r = { p with written := p.written ++ [r] } := by
  unfold Producer.write
  cases c.write with
  | error reason => exact .inl ⟨reason, rfl, rfl⟩
  | ok => exact .inr ⟨rfl, rfl⟩

theorem isRunning_of_runs {id : ℕ} {mode : Mode} (h : mode.Runs id) : mode.isRunning = true := by
  rcases h with rfl | ⟨x, rfl, -⟩
  · rfl
  · rfl

theorem receive_turn (k : Kind) {line : Line} {unread : List Line} (hmode : p.mode = .idle)
    (hunread : p.unread = line :: unread) (hst : st = ⟨p.position, none, none, false⟩) :
    let taken := { p with position := p.position + 1, unread := unread }
    TurnSpec p.position p (k.receive taken c p.position line)
      (.consumed p.position line ::
        ((k.reply taken c p.position line).flatMap (fun r => attempt (.wrote p.position r) p.position c.write) ++
          if (k.receive taken c p.position line).mode.isRunning then [.started p.position] else [])) st := by
  intro taken
  have hreceived := @received taken c line p.position k hmode
  subst hst
  generalize hreceive : (fun c => k.receive taken c p.position line) = receive at hreceived
  have hnow : k.receive taken c p.position line = receive c := by rw [← hreceive]
  have hreply : k.reply taken c p.position line =
      (receive { c with write := .ok () }).written.drop taken.written.length := by rw [← hreceive]; rfl
  rw [hnow, hreply]
  have hlines : ∀ entries, linesOf entries = [] → (receive c).unread = unread →
      p.unread = linesOf (.consumed p.position line :: entries) ++ (receive c).unread := by
    intro entries hnone hrest
    have hcons : linesOf (.consumed p.position line :: entries) = line :: linesOf entries := rfl
    rw [hcons, hnone, hrest, hunread]
    rfl
  have hquiet : ∀ w, Same taken (receive { c with write := w }) →
      (receive { c with write := w }).written.drop taken.written.length = [] := by
    intro w hsame
    rw [hsame.written, List.drop_length]
  cases hreceived with
  | skipped hasks hreceive =>
    obtain ⟨hsame, hmode'⟩ := hreceive c.write
    have hrunning : (receive c).mode.isRunning = false := by
      rcases hmode' with hidle | ⟨r, hended⟩
      · rw [show (receive c).mode = .idle from hidle]
        rfl
      · rw [show (receive c).mode = .ended r from hended]
        rfl
    rw [hquiet _ (hreceive (.ok ())).1, hrunning]
    refine ⟨⟨⟨p.position + 1, none, none, false⟩, .single (.skip hasks), hsame.position.symm, ?_⟩, ?_, ?_⟩
    · rcases hmode' with hidle | hended
      · rw [show (receive c).mode = .idle from hidle]
        rfl
      · exact stands_ended hended
    · exact hsame.written.trans (List.append_nil _).symm
    · exact hlines [] rfl hsame.unread
  | started id hid hreceive =>
    obtain ⟨hsame, hruns⟩ := hreceive c.write
    rw [hquiet _ (hreceive (.ok ())).1, isRunning_of_runs hruns]
    refine ⟨⟨⟨p.position + 1, some (p.position, line), none, false⟩, .cons .consume (.single .start),
      hsame.position.symm, ?_⟩, ?_, ?_⟩
    · rcases hruns with hserving | ⟨x, hexecuting, rfl, -⟩
      · rw [show (receive c).mode = .serving id none from hserving]
        exact ⟨line, rfl, hid⟩
      · rw [show (receive c).mode = .executing x from hexecuting]
        exact fun _ => ⟨line, rfl, hid⟩
    · exact hsame.written.trans (List.append_nil _).symm
    · exact hlines [.started p.position] rfl hsame.unread
  | ended hreceive =>
    obtain ⟨hsame, hended⟩ := hreceive c.write
    have hrunning : (receive c).mode.isRunning = false := by
      obtain ⟨r, hr⟩ := hended
      rw [show (receive c).mode = .ended r from hr]
      rfl
    rw [hquiet _ (hreceive (.ok ())).1, hrunning]
    refine ⟨⟨⟨p.position + 1, none, some (p.position, line), false⟩, .single .consume, hsame.position.symm,
      stands_ended hended⟩, ?_, ?_⟩
    · exact hsame.written.trans (List.append_nil _).symm
    · exact hlines [] rfl hsame.unread
  | answered r hown hreceive =>
    have hdrop : (receive { c with write := .ok () }).written.drop taken.written.length = [r] := by
      rw [hreceive (.ok ())]
      exact List.drop_left
    rw [hdrop]
    rcases @write_spec c r taken with ⟨reason, hwrite, hfailed⟩ | ⟨hwrite, hdone⟩
    · have hfail : receive c = taken.fail (.outside reason) := (hreceive c.write).trans hfailed
      rw [hfail, hwrite]
      refine ⟨⟨⟨p.position + 1, none, some (p.position, line), true⟩, .cons .consume (.single (.lose rfl)), rfl,
        trivial⟩, (List.append_nil _).symm, ?_⟩
      rw [hunread]
      rfl
    · have hok : receive c = { taken with written := taken.written ++ [r] } := (hreceive c.write).trans hdone
      have hrunning : Mode.isRunning taken.mode = false := by
        rw [show taken.mode = .idle from hmode]
        rfl
      rw [hok, hwrite, hrunning]
      refine ⟨⟨⟨p.position + 1, none, none, false⟩, .cons .consume (.single (.answer hown)), rfl, ?_⟩, rfl, ?_⟩
      · rw [show taken.mode = .idle from hmode]
        rfl
      · rw [hunread]
        rfl

theorem idle_turn (k : Kind) (hmode : p.mode = .idle) (hst : st = ⟨p.position, none, none, false⟩) :
    TurnSpec p.position p (k.idle p c) (k.idleEntries p c) st := by
  have hnext : st.next = p.position := by rw [hst]
  have hidle : Stands p.position st p.mode := by
    rw [hmode, hst]
    rfl
  unfold Kind.idle Kind.idleEntries
  cases c.probe with
  | some reason => exact .silent hnext ⟨rfl, rfl, rfl⟩ trivial
  | none =>
    dsimp only
    cases c.poll with
    | pending =>
      cases p.unread with
      | nil => exact .silent hnext (same_refl p) hidle
      | cons => exact .silent hnext (same_refl p) hidle
    | closed => exact .silent hnext ⟨rfl, rfl, rfl⟩ trivial
    | failed reason => exact .silent hnext ⟨rfl, rfl, rfl⟩ trivial
    | next =>
      cases hunread : p.unread with
      | nil => exact .silent hnext (same_refl p) hidle
      | cons line unread => exact receive_turn k hmode hunread hst

/-! ### A request that runs -/

theorem finish_same (k : Kind) (p : Producer) : Same p (k.finish p) := by
  cases k with
  | owned => exact same_refl p
  | bridge =>
    unfold Kind.finish Producer.bridgeEnd
    split
    · rename_i h
      cases h
    · split
      · exact ⟨rfl, rfl, rfl⟩
      · exact same_refl p

theorem finish_stands (k : Kind) (h : Stands active st p.mode) : Stands active st (k.finish p).mode := by
  cases k with
  | owned => exact h
  | bridge =>
    simp only [Kind.finish, Producer.bridgeEnd]
    split
    · exact stands_ended ⟨_, rfl⟩
    · exact h

theorem TurnSpec.finish {entries : List Entry} (k : Kind) (h : TurnSpec active p p' entries st) :
    TurnSpec active p (k.finish p') entries st := by
  obtain ⟨st', hsteps, hnext, hstands⟩ := h.talk
  have hsame := finish_same k p'
  refine ⟨⟨st', hsteps, hnext.trans hsame.position.symm, finish_stands k hstands⟩, ?_, ?_⟩
  · rw [hsame.written, h.written]
  · rw [hsame.unread, h.unread]

theorem TurnSpec.after {st₁ : Dialogue.State Line} {p₁ : Producer} {e : Entry} {entries : List Entry}
    (hmove : Dialogue.Moves Asks Own Aside st e st₁) (hwritten : p₁.written = p.written ++ answersOf [e])
    (hunread : p.unread = linesOf [e] ++ p₁.unread) (h : TurnSpec active p₁ p' entries st₁) :
    TurnSpec active p p' (e :: entries) st := by
  obtain ⟨st', hsteps, hnext, hstands⟩ := h.talk
  have hanswers : answersOf (e :: entries) = answersOf [e] ++ answersOf entries := by
    rw [← List.singleton_append, answersOf, List.filterMap_append]
    rfl
  have hlines : linesOf (e :: entries) = linesOf [e] ++ linesOf entries := by
    rw [← List.singleton_append, linesOf, List.filterMap_append]
    rfl
  refine ⟨⟨st', .cons hmove hsteps, hnext, hstands⟩, ?_, ?_⟩
  · rw [h.written, hwritten, hanswers, List.append_assoc]
  · rw [hunread, h.unread, hlines, List.append_assoc]

theorem TurnSpec.lost {q : ℕ} (hnext : st.next = p.position) (hhalted : st.halted = false) (hsame : Same p p')
    (hstands : ∀ st, Stands active st p'.mode) : TurnSpec active p p' [.lost q] st := by
  obtain ⟨n, running, pending, halted⟩ := st
  obtain rfl : halted = false := hhalted
  have hrest : TurnSpec active p p' [] ⟨n, running, pending, true⟩ := .silent hnext hsame (hstands _)
  exact .after (.lose rfl) (List.append_nil _).symm rfl hrest

theorem settle_spec (directive : BridgeDirective) (transportError : Option Fault) :
    Same p (p.settle directive transportError) ∧ ((∃ r, (p.settle directive transportError).mode = .ended r) ∨
      transportError = none ∧ (p.settle directive transportError).mode = .idle) := by
  unfold Producer.settle
  split
  · exact ⟨⟨rfl, rfl, rfl⟩, .inl ⟨_, rfl⟩⟩
  · exact ⟨⟨rfl, rfl, rfl⟩, .inl ⟨_, rfl⟩⟩
  · exact ⟨⟨rfl, rfl, rfl⟩, .inr ⟨rfl, rfl⟩⟩

theorem complete_spec (x : Execution) (directive : BridgeDirective) (transportError : Option Fault) :
    Same p (p.complete c x directive transportError) ∧
      ((∃ r, (p.complete c x directive transportError).mode = .ended r) ∨
        transportError = none ∧ (p.complete c x directive transportError).mode = .idle) := by
  unfold Producer.complete
  split
  · exact settle_spec directive transportError
  · split
    · exact ⟨⟨rfl, rfl, rfl⟩, .inl ⟨_, rfl⟩⟩
    · rename_i route _
      obtain ⟨hsame, hmode⟩ := @settle_spec { p with route := route } directive transportError
      exact ⟨⟨hsame.position, hsame.unread, hsame.written⟩, hmode⟩

theorem reply_turn {id : ℕ} {reply : BridgeReply} (hnext : st.next = p.position) (hrunning : Running active id st)
    (hid : reply.response.id = id) {rest : Option Fault → Producer → Producer}
    (hrest : ∀ fault p, Same p (rest fault p) ∧ ((∃ r, (rest fault p).mode = .ended r) ∨
      fault = none ∧ (rest fault p).mode = .idle)) :
    TurnSpec active p (rest (p.writeReply c.write reply none).2 (p.writeReply c.write reply none).1)
      (attempt (.wrote active reply.response) active c.write) st := by
  obtain ⟨line, hst, hline⟩ := hrunning
  obtain ⟨hsame, hmode⟩ := hrest (p.writeReply c.write reply none).2 (p.writeReply c.write reply none).1
  unfold Producer.writeReply at hsame hmode ⊢
  cases hwrite : c.write with
  | error reason =>
    rw [hwrite] at hsame hmode
    refine .lost hnext (by rw [hst]) hsame fun st' => ?_
    rcases hmode with hended | ⟨hnone, -⟩
    · exact stands_ended hended
    · cases hnone
  | ok =>
    rw [hwrite] at hsame hmode
    rw [hst]
    have hown : Own line reply.response := fun request hrequest => hid.trans (hline request hrequest)
    let answered := { p with written := p.written ++ [reply.response] }
    have hstands : Stands active ⟨st.next, none, none, false⟩ (rest none answered).mode := by
      rcases hmode with hended | ⟨-, hidle⟩
      · exact stands_ended hended
      · rw [show (rest none answered).mode = .idle from hidle]
        rfl
    have hsilent : TurnSpec active answered (rest none answered) [] ⟨st.next, none, none, false⟩ :=
      .silent hnext hsame hstands
    refine .after (.finish hown) ?_ ?_ hsilent
    · rfl
    · rfl

theorem Running.notice {id : ℕ} (h : Running active id st) :
    Dialogue.Moves Asks Own Aside st (.working active (statusResponse id "working")) st := by
  obtain ⟨line, hst, hline⟩ := h
  rw [hst]
  exact .working hline

theorem Running.halted {id : ℕ} (h : Running active id st) : st.halted = false := by
  obtain ⟨line, hst, -⟩ := h
  rw [hst]

theorem serve_turn {id : ℕ} {writeError : Option Fault} (hmode : p.mode = .serving id writeError)
    (hnext : st.next = p.position) (hstands : Stands active st p.mode)
    (hreply : ∀ reply, c.worker = .replied reply → reply.response.id = id) (k : Kind) :
    TurnSpec active p (p.serve c id writeError) (k.entries active p c) st := by
  unfold Kind.entries Producer.serve
  rw [hmode] at hstands ⊢
  cases writeError with
  | some fault =>
    cases c.worker with
    | gone => exact .silent hnext ⟨rfl, rfl, rfl⟩ trivial
    | running =>
      refine .silent hnext (same_refl p) ?_
      rw [hmode]
      trivial
    | replied reply =>
      obtain ⟨hsame, hended | ⟨hnone, -⟩⟩ := @settle_spec p reply.directive (some fault)
      · exact .silent hnext hsame (stands_ended hended)
      · cases hnone
  | none =>
    have hrunning : Running active id st := hstands
    cases hworker : c.worker with
    | gone => exact .silent hnext ⟨rfl, rfl, rfl⟩ trivial
    | running =>
      dsimp only
      cases c.write with
      | error reason => exact .lost hnext hrunning.halted ⟨rfl, rfl, rfl⟩ fun _ => trivial
      | ok =>
        let noticed := { p with mode := .serving id none, written := p.written ++ [statusResponse id "working"] }
        have hrest : TurnSpec active noticed noticed [] st := .silent hnext (same_refl _) hrunning
        refine .after hrunning.notice ?_ ?_ hrest
        · rfl
        · rfl
    | replied reply =>
      exact @reply_turn p c active st id reply hnext hrunning (hreply reply hworker)
        (fun fault p => p.settle reply.directive fault) fun fault p => settle_spec reply.directive fault

/-! ### Control lines -/

theorem takeStamp_request {value value' : Json} {attachment : Option Attachment} {request : Request}
    (hstamp : takeStamp value attachment = .ok value') (hrequest : Request.fromValue value' = some request) :
    ∃ request', Request.fromValue value = some request' ∧ (request = request' ∨
      request = { request' with params := request'.params.remove attachmentField }) := by
  cases attachment with
  | none =>
    obtain rfl := Except.ok.inj hstamp
    exact ⟨request, hrequest, .inl rfl⟩
  | some active =>
    unfold takeStamp at hstamp
    dsimp only at hstamp
    split at hstamp
    · cases hstamp
    · rename_i params hparams
      split at hstamp
      · cases hstamp
      · split at hstamp
        · cases hstamp
        · split_ifs at hstamp
          obtain rfl := Except.ok.inj hstamp
          obtain ⟨hget, -⟩ := Option.filter_eq_some_iff.mp hparams
          cases value with
          | obj fields =>
            have hfind : OrdMap.find? "params" fields = some params := hget
            simp only [Request.fromValue, Json.set, Json.field_obj, OrdMap.find?_insert_self,
              OrdMap.find?_insert_ne (show "v" ≠ "params" by decide),
              OrdMap.find?_insert_ne (show "id" ≠ "params" by decide),
              OrdMap.find?_insert_ne (show "method" ≠ "params" by decide), Option.bind_eq_bind,
              Option.bind_eq_some_iff, hfind] at hrequest ⊢
            obtain ⟨v, hv, version, hversion, u, hu, i, hi, id, hid, m, hm, method, hmethod, _, hparams', heq⟩ :=
              hrequest
            cases hparams'
            cases heq
            exact ⟨⟨version, id, method, params⟩, ⟨v, hv, version, hversion, u, hu, i, hi, id, hid, m, hm, method, hmethod,
              params, rfl, rfl⟩, .inr rfl⟩
          | _ => cases hget

theorem answer_aside {line : Line} {request control : Request} (hline : requestOf line = some request)
    (hcontrol : control = request ∨ control = { request with params := request.params.remove attachmentField })
    (x : Execution) : Aside line (x.answer control).1 := by
  have hid : control.id = request.id := by rcases hcontrol with rfl | rfl <;> rfl
  have hv : control.v = request.v := by rcases hcontrol with rfl | rfl <;> rfl
  have hmethod : control.method = request.method := by rcases hcontrol with rfl | rfl <;> rfl
  refine ⟨request, hline, ?_⟩
  rw [← hid, ← hv, ← hmethod]
  unfold Execution.answer
  split_ifs with hversion hcancel
  · exact .inl ⟨hversion, rfl⟩
  · right
    left
    split
    · rename_i hnone
      refine ⟨hcancel, .inr (.inr ⟨rfl, ?_⟩)⟩
      rcases hcontrol with rfl | rfl
      · exact .inl hnone
      · exact .inr hnone
    · split_ifs
      · exact ⟨hcancel, .inl rfl⟩
      · exact ⟨hcancel, .inr (.inl rfl)⟩
  · exact .inr (.inr ⟨hcancel, rfl⟩)

theorem answer_keeps (x : Execution) (control : Request) :
    (x.answer control).2.transportError = x.transportError ∧ (x.answer control).2.id = x.id := by
  unfold Execution.answer
  split_ifs
  · exact ⟨rfl, rfl⟩
  · split
    · exact ⟨rfl, rfl⟩
    · split_ifs
      · exact ⟨rfl, rfl⟩
      · exact ⟨rfl, rfl⟩
  · exact ⟨rfl, rfl⟩

theorem control_cases (x : Execution) (line : Line) :
    (∃ x', x.control line = (none, x') ∧ ¬ Asks line ∧ x'.transportError = x.transportError ∧ x'.id = x.id) ∨
      (∃ fault, x.control line = (none, x.fail fault)) ∨
      ∃ r x', x.control line = (some r, x') ∧ Aside line r ∧ x'.transportError = x.transportError ∧ x'.id = x.id := by
  unfold Execution.control
  by_cases hblank : line.isBlank = true
  · rw [if_pos hblank]
    exact .inl ⟨x, rfl, not_asks_of_blank hblank, rfl, rfl⟩
  rw [if_neg hblank]
  unfold Execution.parseControl
  cases hparse : line.parse with
  | none => exact .inr (.inl ⟨_, rfl⟩)
  | some value =>
    dsimp only
    cases henvelope : SessionEvent.fromEnvelope value with
    | error e => exact .inr (.inl ⟨_, rfl⟩)
    | ok event =>
      cases event with
      | some event =>
        have hasks : ¬ Asks line := fun hasks => hasks.2 value event hparse henvelope
        dsimp only
        cases x.attachment with
        | none => exact .inr (.inl ⟨_, rfl⟩)
        | some active =>
          dsimp only
          split_ifs
          · exact .inr (.inl ⟨_, rfl⟩)
          · exact .inr (.inl ⟨_, rfl⟩)
          · exact .inl ⟨_, rfl, hasks, rfl, rfl⟩
          · exact .inl ⟨x, rfl, hasks, rfl, rfl⟩
      | none =>
        dsimp only
        cases hstamp : takeStamp value x.attachment with
        | error e => exact .inr (.inl ⟨_, rfl⟩)
        | ok value' =>
          dsimp only
          cases hrequest : Request.fromValue value' with
          | none => exact .inr (.inl ⟨_, rfl⟩)
          | some control =>
            obtain ⟨request, hvalue, hcontrol⟩ := takeStamp_request hstamp hrequest
            have hline : requestOf line = some request := by rw [requestOf, hparse, Option.bind_some, hvalue]
            exact .inr (.inr ⟨_, _, rfl, answer_aside hline hcontrol x, answer_keeps x control⟩)

theorem working_turn {x : Execution} (hnext : st.next = p.position)
    (hrunning : x.transportError = none → Running active x.id st) :
    TurnSpec active p (p.working c x) (workingEntries active c x) st := by
  unfold Producer.working workingEntries
  split_ifs with hdue
  · have hheld := hrunning (Option.isNone_iff_eq_none.mp hdue.1)
    cases c.workingWrite with
    | error reason => exact .lost hnext hheld.halted ⟨rfl, rfl, rfl⟩ fun _ h => by cases h
    | ok =>
      let noticed := { p with mode := .executing x, written := p.written ++ [statusResponse x.id "working"] }
      have hrest : TurnSpec active noticed noticed [] st := .silent hnext (same_refl _) hrunning
      refine .after hheld.notice ?_ ?_ hrest
      · rfl
      · rfl
  · exact .silent hnext ⟨rfl, rfl, rfl⟩ hrunning

theorem broken_turn {x : Execution} {fault : Fault} (hnext : st.next = p.position) (hhalted : st.halted = false) :
    TurnSpec active p (p.working c (x.fail fault)) [.broken] st := by
  obtain ⟨n, running, pending, halted⟩ := st
  obtain rfl : halted = false := hhalted
  have hrest : TurnSpec active p (p.working c (x.fail fault)) [] ⟨n, running, pending, true⟩ :=
    @working_turn p c active _ (x.fail fault) hnext nofun
  refine .after (.lose rfl) ?_ ?_ hrest
  · exact (List.append_nil _).symm
  · rfl

theorem control_turn {x : Execution} (hnext : st.next = p.position) (hrunning : Running active x.id st) :
    TurnSpec active p (p.control c x) (controlEntries active p c x) st := by
  have hhalted := hrunning.halted
  have hpass : TurnSpec active p (p.working c x) (workingEntries active c x) st := working_turn hnext fun _ => hrunning
  unfold Producer.control controlEntries
  cases c.poll with
  | pending =>
    cases p.unread with
    | nil => exact hpass
    | cons => exact hpass
  | closed => exact broken_turn hnext hhalted
  | failed reason => exact broken_turn hnext hhalted
  | next =>
    cases hunread : p.unread with
    | nil => exact hpass
    | cons line unread =>
      let taken := { p with position := p.position + 1, unread := unread }
      have hlines : p.unread = linesOf [.consumed p.position line] ++ taken.unread := hunread
      obtain ⟨running, hst, hline⟩ := hrunning
      rw [hst, hnext]
      let passed : Dialogue.State Line := ⟨p.position + 1, some (active, running), none, false⟩
      let waiting : Dialogue.State Line := ⟨p.position + 1, some (active, running), some (p.position, line), false⟩
      have hpassed : Running active x.id passed := ⟨running, rfl, hline⟩
      dsimp only
      rcases control_cases x line with ⟨x', hcontrol, hasks, herror', hid⟩ | ⟨fault, hcontrol⟩ |
        ⟨r, x', hcontrol, haside, herror', hid⟩
      · rw [hcontrol]
        have hrest : TurnSpec active taken (taken.working c x') (workingEntries active c x') passed :=
          working_turn rfl fun _ => hid ▸ hpassed
        refine .after (.skip hasks) ?_ hlines hrest
        exact (List.append_nil _).symm
      · rw [hcontrol]
        have hrest : TurnSpec active taken (taken.working c (x.fail fault)) (workingEntries active c (x.fail fault))
          waiting := working_turn rfl nofun
        refine .after .consume ?_ hlines hrest
        exact (List.append_nil _).symm
      · rw [hcontrol]
        cases c.write with
        | error reason =>
          have hworking : taken.working c (x'.fail (.outside reason)) =
              { taken with mode := .executing (x'.fail (.outside reason)) } := if_neg (by simp [Execution.fail])
          have hrest : TurnSpec active taken (taken.working c (x'.fail (.outside reason))) [.lost p.position] waiting := by
            refine .lost rfl rfl ?_ ?_
            · rw [hworking]
              exact ⟨rfl, rfl, rfl⟩
            · rw [hworking]
              exact fun _ h => by cases h
          refine .after .consume ?_ hlines hrest
          exact (List.append_nil _).symm
        | ok =>
          let answered := { taken with written := taken.written ++ [r] }
          have hrest : TurnSpec active answered (answered.working c x') (workingEntries active c x') passed :=
            working_turn rfl fun _ => hid ▸ hpassed
          have hanswer : TurnSpec active taken (answered.working c x')
              (.wrote p.position r :: workingEntries active c x') waiting := by
            refine .after (.aside haside) ?_ ?_ hrest
            · rfl
            · rfl
          refine .after .consume ?_ hlines hanswer
          exact (List.append_nil _).symm

theorem execute_turn {x : Execution} (hmode : p.mode = .executing x) (hnext : st.next = p.position)
    (hstands : Stands active st p.mode) (hreply : ∀ reply, c.worker = .replied reply → reply.response.id = x.id)
    (k : Kind) : TurnSpec active p (p.execute c x) (k.entries active p c) st := by
  unfold Kind.entries Producer.execute
  rw [hmode] at hstands
  simp only [hmode]
  cases hworker : c.worker with
  | gone => exact .silent hnext ⟨rfl, rfl, rfl⟩ trivial
  | replied reply =>
    dsimp only
    cases herror : x.transportError with
    | some fault =>
      obtain ⟨hsame, hended | ⟨hnone, -⟩⟩ := @complete_spec p c x reply.directive (some fault)
      · exact .silent hnext hsame (stands_ended hended)
      · cases hnone
    | none =>
      have hrest : ∀ restored : Option Fault, TurnSpec active p
          ((p.writeReply c.write reply none).1.complete c x reply.directive
            ((p.writeReply c.write reply none).2.or restored))
          (attempt (.wrote active reply.response) active c.write) st := by
        intro restored
        refine @reply_turn p c active st x.id reply hnext (hstands herror) (hreply reply hworker)
          (fun fault p => p.complete c x reply.directive (fault.or restored)) fun fault p => ?_
        obtain ⟨hsame, hended | ⟨hnone, hidle⟩⟩ := @complete_spec p c x reply.directive (fault.or restored)
        · exact ⟨hsame, .inl hended⟩
        · exact ⟨hsame, .inr ⟨(Option.or_eq_none_iff.mp hnone).1, hidle⟩⟩
      exact hrest _
  | running =>
    dsimp only
    split_ifs with hblocked
    · refine .silent hnext (same_refl p) ?_
      rw [hmode]
      exact hstands
    · rw [not_or, Bool.not_eq_true, Bool.not_eq_true, Option.isSome_eq_false_iff, Option.isNone_iff_eq_none] at hblocked
      exact control_turn hnext (hstands hblocked.1)

def Mode.runningId : Mode → Option ℕ
  | .serving id _ => some id
  | .executing x => some x.id
  | _ => none

/-- The handler answers with the identifier of its request. -/
def Answers (p : Producer) (c : Choice) : Prop :=
  ∀ reply id, c.worker = .replied reply → p.mode.runningId = some id → reply.response.id = id

theorem turn_spec (k : Kind) (s : Session) (c : Choice) (hnext : st.next = s.producer.position)
    (hstands : Stands s.active st s.producer.mode) (hanswers : Answers s.producer c) :
    TurnSpec (s.step k c).active s.producer (s.step k c).producer (k.entries s.active s.producer c) st := by
  obtain ⟨p, active, log⟩ := s
  dsimp only at hnext hstands hanswers ⊢
  unfold Session.step Kind.step
  cases hmode : p.mode with
  | idle =>
    rw [hmode] at hstands
    have hst : st = ⟨p.position, none, none, false⟩ := by
      rw [← hnext]
      exact hstands
    simp only [hmode, Kind.entries]
    exact idle_turn k hmode hst
  | serving id writeError =>
    have hreply : ∀ reply, c.worker = .replied reply → reply.response.id = id := by
      intro reply hreplied
      refine hanswers reply id hreplied ?_
      rw [hmode]
      rfl
    exact (serve_turn hmode hnext hstands hreply k).finish k
  | executing x =>
    have hreply : ∀ reply, c.worker = .replied reply → reply.response.id = x.id := by
      intro reply hreplied
      refine hanswers reply x.id hreplied ?_
      rw [hmode]
      rfl
    exact (execute_turn hmode hnext hstands hreply k).finish k
  | ended r =>
    simp only [hmode, Kind.entries]
    refine .silent hnext (same_refl p) ?_
    rw [hmode]
    trivial

end

/-! ## Runs -/

/-- The log of a session is a dialogue, and says what was read and written. -/
structure SessionInv (lines : List Line) (s : Session) : Prop where
  talk : ∃ st, Talk st s.log ∧ st.next = s.producer.position ∧ Stands s.active st s.producer.mode
  written : s.producer.written = answersOf s.log
  lines : lines = linesOf s.log ++ s.producer.unread

/-- In every turn of the run the handler answers with the identifier of its request. -/
def Honest (k : Kind) : Session → List Choice → Prop
  | _, [] => True
  | s, c :: choices => Answers s.producer c ∧ Honest k (s.step k c) choices

theorem SessionInv.step {lines : List Line} {s : Session} (h : SessionInv lines s) (k : Kind) {c : Choice}
    (hanswers : Answers s.producer c) : SessionInv lines (s.step k c) := by
  obtain ⟨st, htalk, hnext, hstands⟩ := h.talk
  have hturn := turn_spec k s c hnext hstands hanswers
  obtain ⟨st', hsteps, hnext', hstands'⟩ := hturn.talk
  refine ⟨⟨st', htalk.append hsteps, hnext', hstands'⟩, ?_, ?_⟩
  · rw [hturn.written, h.written]
    exact List.filterMap_append.symm
  · rw [h.lines, hturn.unread, ← List.append_assoc]
    exact congrArg (· ++ _) List.filterMap_append.symm

theorem SessionInv.run {lines : List Line} (k : Kind) (choices : List Choice) : ∀ {s : Session}, SessionInv lines s →
    Honest k s choices → SessionInv lines (s.run k choices) := by
  induction choices with
  | nil =>
    intro s h _
    exact h
  | cons c choices ih =>
    intro s h hhonest
    exact ih (h.step k hhonest.1) hhonest.2

theorem sessionInv_start (runtime : String) (direct : Attachment) (lines : List Line) :
    SessionInv lines (.start runtime direct lines) :=
  ⟨⟨.start Line, .nil, rfl, rfl⟩, rfl, rfl⟩

/-! ## The cancellation flag -/

/-- The entry cancels the running request: a cancellation of exactly its key, a detach of exactly its attachment, or a
transport that fails, be it by a control line that cannot be read. -/
def Execution.stops (x : Execution) : Entry → Prop
  | .consumed _ line => line.isBlank = false ∧ match x.parseControl line with
    | .error _ => True
    | .ok (.event detached) => detached.isSome
    | .ok (.request request) => request.v = protocolVersion ∧ request.method = "cancel_operation" ∧
        (OperationKey.fromValue request.params).filter (fun target => target.Valid) = some x.key
  | .lost _ | .broken => True
  | _ => False

/-- The flag after these entries. -/
structure Flags (x : Execution) (entries : List Entry) (x' : Execution) : Prop where
  key : x'.key = x.key
  attachment : x'.attachment = x.attachment
  started : ∀ q, .started q ∉ entries
  cancelled : x'.cancelled = true ↔ x.cancelled = true ∨ ∃ e ∈ entries, x.stops e

section
variable {p : Producer} {c : Choice} {active : ℕ} {x x' x'' : Execution} {entries entries' : List Entry}

theorem stops_congr (hkey : x'.key = x.key) (hattachment : x'.attachment = x.attachment) (e : Entry) :
    x'.stops e ↔ x.stops e := by
  cases e with
  | consumed q line =>
    have hparse : x'.parseControl line = x.parseControl line := by
      unfold Execution.parseControl
      rw [hkey, hattachment]
    simp only [Execution.stops, hparse, hkey]
  | _ => exact Iff.rfl

theorem Flags.refl (x : Execution) : Flags x [] x := ⟨rfl, rfl, by simp, by simp⟩

theorem Flags.append (h : Flags x entries x') (h' : Flags x' entries' x'') : Flags x (entries ++ entries') x'' where
  key := h'.key.trans h.key
  attachment := h'.attachment.trans h.attachment
  started := by
    intro q hq
    rcases List.mem_append.mp hq with hq | hq
    · exact h.started q hq
    · exact h'.started q hq
  cancelled := by
    rw [h'.cancelled, h.cancelled, or_assoc]
    simp only [stops_congr h.key h.attachment, List.mem_append, or_and_right, exists_or]

theorem Flags.fails {e : Entry} (hloses : e.loses = true) (fault : Fault) : Flags x [e] (x.fail fault) := by
  have hstops : x.stops e := by
    cases e with
    | lost => trivial
    | broken => trivial
    | _ => cases hloses
  have hstarted : ∀ q, e ≠ .started q := by
    rintro q rfl
    cases hloses
  refine ⟨rfl, rfl, fun q hq => hstarted q (List.mem_singleton.mp hq).symm, ?_⟩
  simp [Execution.fail, hstops]

theorem answer_flags (control : Request) :
    (x.answer control).2.key = x.key ∧ (x.answer control).2.attachment = x.attachment ∧
      ((x.answer control).2.cancelled = true ↔ x.cancelled = true ∨ control.v = protocolVersion ∧
        control.method = "cancel_operation" ∧
          (OperationKey.fromValue control.params).filter (fun target => target.Valid) = some x.key) := by
  unfold Execution.answer
  split_ifs with hversion hcancel
  · simp [hversion]
  · rw [Classical.not_not] at hversion
    cases (OperationKey.fromValue control.params).filter fun target => target.Valid with
    | none => simp
    | some target =>
      dsimp only
      split_ifs with htarget
      · simp [hversion, hcancel, htarget]
      · simp [htarget]
  · simp [hcancel]

theorem control_flags (q : ℕ) (line : Line) : Flags x [.consumed q line] (x.control line).2 := by
  have hstops : (∃ e ∈ [Dialogue.Entry.consumed q line], x.stops e) ↔ x.stops (.consumed q line) := by simp
  suffices (x.control line).2.key = x.key ∧ (x.control line).2.attachment = x.attachment ∧
      ((x.control line).2.cancelled = true ↔ x.cancelled = true ∨ x.stops (.consumed q line)) by
    refine ⟨this.1, this.2.1, by simp, ?_⟩
    rw [this.2.2, hstops]
  simp only [Execution.control, Execution.stops]
  by_cases hblank : line.isBlank = true
  · simp [hblank]
  rw [if_neg hblank]
  have hblank' : line.isBlank = false := by simpa using hblank
  cases hparse : x.parseControl line with
  | error fault => simp [hblank', Execution.fail]
  | ok control =>
    cases control with
    | event detached =>
      cases detached with
      | none => simp
      | some event => simp [hblank']
    | request request =>
      simp only [hblank', true_and]
      exact answer_flags request

def RunsOn (x : Execution) (entries : List Entry) (p : Producer) : Prop :=
  ∃ x', p.mode = .executing x' ∧ Flags x entries x'

theorem working_flags (p : Producer) : RunsOn x (workingEntries active c x) (p.working c x) := by
  unfold Producer.working workingEntries
  split_ifs
  · cases c.workingWrite with
    | error reason => exact ⟨_, rfl, .fails rfl _⟩
    | ok => exact ⟨x, rfl, rfl, rfl, by simp [attempt], by simp [attempt, Execution.stops]⟩
  · exact ⟨x, rfl, .refl x⟩

theorem RunsOn.after {p : Producer} (h : Flags x entries x') (h' : RunsOn x' entries' p) :
    RunsOn x (entries ++ entries') p := by
  obtain ⟨x'', hmode, hflags⟩ := h'
  exact ⟨x'', hmode, h.append hflags⟩

theorem working_fail (fault : Fault) (p : Producer) : (p.working c (x.fail fault)).mode = .executing (x.fail fault) := by
  have hdue : ¬ ((x.fail fault).transportError.isNone = true ∧ c.workingDue = true) := by simp [Execution.fail]
  rw [Producer.working, if_neg hdue]

theorem controlTurn_flags : RunsOn x (controlEntries active p c x) (p.control c x) := by
  have hpass := @working_flags c active x p
  unfold Producer.control controlEntries
  cases c.poll with
  | pending =>
    cases p.unread with
    | nil => exact hpass
    | cons => exact hpass
  | closed => exact ⟨_, working_fail _ p, .fails rfl _⟩
  | failed reason => exact ⟨_, working_fail _ p, .fails rfl _⟩
  | next =>
    cases p.unread with
    | nil => exact hpass
    | cons line unread =>
      have hline := @control_flags x p.position line
      dsimp only
      rcases hcontrol : x.control line with ⟨_ | r, x'⟩
      · rw [hcontrol] at hline
        exact .after hline (working_flags _)
      · rw [hcontrol] at hline
        cases c.write with
        | error reason =>
          have hfails : Flags x' [Dialogue.Entry.lost p.position] (x'.fail (.outside reason)) := .fails rfl _
          exact ⟨_, working_fail _ _, hline.append hfails⟩
        | ok =>
          have hwrote : Flags x' [Dialogue.Entry.wrote p.position r] x' :=
            ⟨rfl, rfl, by simp, by simp [Execution.stops]⟩
          exact .after (hline.append hwrote) (working_flags _)

theorem finish_executing {k : Kind} (h : (k.finish p).mode = .executing x) : p.mode = .executing x := by
  cases k with
  | owned => exact h
  | bridge =>
    simp only [Kind.finish, Producer.bridgeEnd] at h
    split at h
    · cases h
    · exact h

theorem not_executing {mode : Mode} {P : Prop} (h : (∃ r, mode = .ended r) ∨ P ∧ mode = .idle) :
    mode ≠ .executing x := by
  rintro rfl
  rcases h with ⟨r, hr⟩ | ⟨-, hidle⟩
  · cases hr
  · cases hidle

theorem serve_not_executing {id : ℕ} {writeError : Option Fault} (hmode : p.mode = .serving id writeError) :
    (p.serve c id writeError).mode ≠ .executing x := by
  have hkept : p.mode ≠ .executing x := by
    rw [hmode]
    exact nofun
  unfold Producer.serve
  cases c.worker with
  | gone => exact nofun
  | running =>
    cases writeError with
    | some fault => exact hkept
    | none =>
      cases c.write with
      | error reason => exact nofun
      | ok => exact hkept
  | replied reply => exact not_executing (settle_spec _ _).2

theorem execute_flags {k : Kind} (hmode : p.mode = .executing x) (h : (p.execute c x).mode = .executing x') :
    Flags x (k.entries active p c) x' := by
  simp only [Kind.entries, hmode]
  unfold Producer.execute at h
  cases hworker : c.worker with
  | gone =>
    rw [hworker] at h
    cases h
  | replied reply =>
    rw [hworker] at h
    exact absurd h (not_executing (complete_spec _ _ _).2)
  | running =>
    rw [hworker] at h
    dsimp only at h ⊢
    split_ifs at h ⊢
    · rw [hmode] at h
      cases h
      exact .refl x
    · obtain ⟨y, hy, hflags⟩ := @controlTurn_flags p c active x
      rw [hy] at h
      cases h
      exact hflags

theorem idle_flags (k : Kind) (hmode : p.mode = .idle) (h : (k.idle p c).mode = .executing x) :
    x.cancelled = false ∧ ∃ earlier, k.idleEntries p c = earlier ++ [.started p.position] := by
  have hkept : p.mode ≠ .executing x := by
    rw [hmode]
    exact nofun
  unfold Kind.idle at h
  unfold Kind.idleEntries
  cases hprobe : c.probe with
  | some reason =>
    rw [hprobe] at h
    cases h
  | none =>
    rw [hprobe] at h
    cases hpoll : c.poll with
    | pending =>
      rw [hpoll] at h
      cases p.unread <;> exact absurd h hkept
    | closed =>
      rw [hpoll] at h
      cases h
    | failed reason =>
      rw [hpoll] at h
      cases h
    | next =>
      rw [hpoll] at h
      cases hunread : p.unread with
      | nil =>
        rw [hunread] at h
        exact absurd h hkept
      | cons line unread =>
        rw [hunread] at h
        dsimp only at h ⊢
        rw [h]
        refine ⟨?_, _, (List.cons_append).symm⟩
        have hreceived := @received { p with position := p.position + 1, unread := unread } c line p.position k hmode
        cases hreceived with
        | skipped _ hreceive =>
          obtain ⟨-, hidle | ⟨r, hended⟩⟩ := hreceive c.write
          · cases h.symm.trans hidle
          · cases h.symm.trans hended
        | answered r _ hreceive =>
          rw [show k.receive { p with position := p.position + 1, unread := unread } c p.position line =
            Producer.write { p with position := p.position + 1, unread := unread } c r from hreceive c.write] at h
          rcases @write_spec c r { p with position := p.position + 1, unread := unread } with ⟨_, -, hw⟩ | ⟨-, hw⟩
          · cases (congrArg Producer.mode hw).symm.trans h
          · exact absurd ((congrArg Producer.mode hw).symm.trans h) hkept
        | started id _ hreceive =>
          obtain ⟨-, hserving | ⟨y, hy, -, hfresh⟩⟩ := hreceive c.write
          · cases h.symm.trans hserving
          · cases h.symm.trans hy
            exact hfresh.1
        | ended hreceive =>
          obtain ⟨-, r, hended⟩ := hreceive c.write
          cases h.symm.trans hended

end

/-- The flag of the request that runs under a key, from the entries since it started. -/
def Flagged (s : Session) : Prop :=
  ∀ x, s.producer.mode = .executing x → ∃ earlier later, s.log = earlier ++ .started s.active :: later ∧
    (∀ q, .started q ∉ later) ∧ (x.cancelled = true ↔ ∃ e ∈ later, x.stops e)

theorem Flagged.step {s : Session} (h : Flagged s) (k : Kind) (c : Choice) : Flagged (s.step k c) := by
  obtain ⟨p, active, log⟩ := s
  intro x' hx'
  unfold Session.step Kind.step at hx' ⊢
  dsimp only at hx' ⊢
  cases hmode : p.mode with
  | idle =>
    rw [hmode] at hx'
    simp only [Kind.entries, hmode]
    obtain ⟨hfresh, earlier, hentries⟩ := idle_flags k hmode hx'
    refine ⟨log ++ earlier, [], ?_, by simp, by simp [hfresh]⟩
    rw [hentries, List.append_assoc]
  | serving id writeError =>
    rw [hmode] at hx'
    exact absurd (finish_executing hx') (serve_not_executing hmode)
  | executing x =>
    rw [hmode] at hx'
    obtain ⟨earlier, later, hlog, hstarted, hcancelled⟩ := h x hmode
    have hflags := @execute_flags p c active x x' k hmode (finish_executing hx')
    refine ⟨earlier, later ++ k.entries active p c, ?_, ?_, ?_⟩
    · dsimp only at hlog
      rw [hlog, List.append_assoc]
      rfl
    · intro q hq
      rcases List.mem_append.mp hq with hq | hq
      · exact hstarted q hq
      · exact hflags.started q hq
    · rw [hflags.cancelled, hcancelled]
      simp only [stops_congr hflags.key hflags.attachment, List.mem_append, or_and_right, exists_or]
  | ended r =>
    rw [hmode] at hx'
    dsimp only at hx'
    rw [hmode] at hx'
    cases hx'

theorem Flagged.run (k : Kind) (choices : List Choice) : ∀ {s : Session}, Flagged s → Flagged (s.run k choices) := by
  induction choices with
  | nil =>
    intro s h
    exact h
  | cons c choices ih =>
    intro s h
    exact ih (h.step k c)

/-! ## What a session promises -/

/-- The transport holds: nothing that was to be written was lost, and what was read could be read. -/
def Mode.holds : Mode → Bool
  | .idle | .serving _ none => true
  | .executing x => x.transportError.isNone
  | _ => false

def Session.running (s : Session) : Option ℕ := if s.producer.mode.isRunning then some s.active else none

structure Answered (s : Session) : Prop where
  /-- a request that is not running any more has its answer -/
  once : s.producer.mode.holds = true → ∀ (i : ℕ) q line, s.log[i]? = some (.consumed q line) → Asks line →
    s.running ≠ some q → ∃ (k : ℕ) (answer : Response), s.log[k]? = some (.wrote q answer) ∧ Own line answer
  waiting : s.producer.mode.holds = true → ∀ q, s.running = some q → ∀ (k : ℕ) answer, s.log[k]? ≠ some (.wrote q answer)
  /-- what is written for a request comes after its line and not after its answer -/
  framed : ∀ (j : ℕ) q b e, s.log[j]? = some e → e.answers = some (q, b) →
    (∃ i : ℕ, i < j ∧ ∃ line, s.log[i]? = some (.consumed q line) ∧ Own line b) ∧
      ∀ (k : ℕ) answer, s.log[k]? = some (.wrote q answer) → j ≤ k
  /-- a request that comes while another one runs is answered before it -/
  asides : ∀ (i j : ℕ) p q l line, i < j → s.log[i]? = some (.consumed p l) → s.log[j]? = some (.consumed q line) →
    Asks line → ∀ (k : ℕ) answer, j < k → s.log[k]? = some (.wrote p answer) →
      ∃ (m : ℕ) (answer' : Response), j < m ∧ m < k ∧ s.log[m]? = some (.wrote q answer') ∧ Aside line answer'
  /-- a request that comes after an answer is answered after it -/
  ordered : ∀ (i j k : ℕ) p q answer line answer', i < j → s.log[i]? = some (.wrote p answer) →
    s.log[j]? = some (.consumed q line) → s.log[k]? = some (.wrote q answer') → i < k
  /-- a transport that fails is not used again -/
  last : ∀ (i : ℕ) e, s.log[i]? = some e → e.loses = true → i + 1 = s.log.length

theorem own_of_aside {line : Line} {r : Response} (h : Aside line r) : Own line r := by
  obtain ⟨request, hline, hr⟩ := h
  intro request' hline'
  rw [hline] at hline'
  obtain rfl := Option.some.inj hline'
  rcases hr with ⟨-, rfl⟩ | ⟨-, rfl | rfl | ⟨rfl, -⟩⟩ | ⟨-, rfl⟩ <;> rfl

theorem own_of_either {line : Line} {r : Response} (h : Own line r ∨ Aside line r) : Own line r :=
  h.elim id own_of_aside

/-- Where the transport holds, the dialogue waits for the running request and for nothing else. -/
theorem Stands.waits {s : Session} {st : Dialogue.State Line} (h : Stands s.active st s.producer.mode)
    (hholds : s.producer.mode.holds = true) : st.pending = none ∧ st.active.map Prod.fst = s.running := by
  unfold Session.running
  cases hmode : s.producer.mode with
  | idle =>
    rw [hmode] at h
    have hst : st = ⟨st.next, none, none, false⟩ := h
    rw [hst]
    exact ⟨rfl, rfl⟩
  | serving id writeError =>
    rw [hmode] at h hholds
    cases writeError with
    | some fault => cases hholds
    | none =>
      obtain ⟨line, hst, -⟩ := h
      rw [hst]
      exact ⟨rfl, rfl⟩
  | executing x =>
    rw [hmode] at h hholds
    obtain ⟨line, hst, -⟩ := h (Option.isNone_iff_eq_none.mp hholds)
    rw [hst]
    exact ⟨rfl, rfl⟩
  | ended r =>
    rw [hmode] at hholds
    cases hholds

theorem SessionInv.answered {lines : List Line} {s : Session} (h : SessionInv lines s) : Answered s := by
  obtain ⟨st, htalk, -, hstands⟩ := h.talk
  have hledger := htalk.ledger
  refine ⟨?_, ?_, ?_, hledger.asides, ?_, fun i e he hloses => (hledger.last i e he hloses).1⟩
  · intro hholds i q line hi hasks hrunning
    obtain ⟨hpending, hactive⟩ := hstands.waits hholds
    rcases hledger.settled i q line hi hasks with ha | hp | ⟨k, answer, hk, hown⟩
    · rw [ha] at hactive
      exact absurd hactive.symm hrunning
    · rw [hpending] at hp
      cases hp
    · exact ⟨k, answer, hk, own_of_either hown⟩
  · intro hholds q hq
    obtain ⟨-, hactive⟩ := hstands.waits hholds
    rw [hq] at hactive
    obtain ⟨⟨q', line⟩, ha, rfl⟩ := Option.map_eq_some_iff.mp hactive
    exact (hledger.waiting q' line (.inl ha)).2
  · intro j q b e hj he
    obtain ⟨⟨i, hij, line, hi, hown⟩, hfirst⟩ := hledger.framed j q b e hj he
    exact ⟨⟨i, hij, line, hi, own_of_either hown⟩, hfirst⟩
  · intro i j k p q answer line answer' hij hi hj hk
    obtain ⟨⟨j', hjk, line', hj', -⟩, -⟩ := hledger.framed k q answer' _ hk rfl
    have hsame : j' = j := by
      rcases Nat.lt_trichotomy j' j with hlt | heq | hlt
      · exact absurd (hledger.ascending j' j q q line' line hlt hj' hj) (Nat.lt_irrefl q)
      · exact heq
      · exact absurd (hledger.ascending j j' q q line line' hlt hj hj') (Nat.lt_irrefl q)
    omega

/-- Over every run of either session loop: the log says what was read and written, every request is answered once and
in its place, and the flag of a request under a key is set exactly by what came for it while it ran. -/
theorem requests_answered (k : Kind) (runtime : String) (direct : Attachment) (lines : List Line)
    (choices : List Choice) (hhonest : Honest k (.start runtime direct lines) choices) :
    ((Session.start runtime direct lines).run k choices).producer.written =
        answersOf ((Session.start runtime direct lines).run k choices).log ∧
      lines = linesOf ((Session.start runtime direct lines).run k choices).log ++
        ((Session.start runtime direct lines).run k choices).producer.unread ∧
      Answered ((Session.start runtime direct lines).run k choices) ∧
      Flagged ((Session.start runtime direct lines).run k choices) := by
  have h := (sessionInv_start runtime direct lines).run k choices hhonest
  have hstart : Flagged (.start runtime direct lines) := by
    intro x hx
    cases hx
  exact ⟨h.written, h.lines, h.answered, hstart.run k choices⟩

section samples

def sampleKey : OperationKey := ⟨"launch-a", "owner-a", "operation-a"⟩

def sampleLine (id : ℕ) (method : String) (params : Json) : Line := .doc (Request.toValue (.new id method params))

def sampleTurn : Choice := ⟨none, .next, fun _ => .ok .continue, none, .running, .ok (), .ok (), false, .ok ()⟩

def sampleRun (k : Kind) : Session :=
  (Session.start "launch-a" ⟨"direct", 1, 1⟩ [sampleLine 1 "step" (.obj [("_control", sampleKey.toValue)]),
    sampleLine 2 "cancel_operation" sampleKey.toValue]).run k
    [sampleTurn, sampleTurn, { sampleTurn with worker := .replied ⟨⟨1, true, none, none⟩, .continue⟩ }]

theorem requests_answered_cancelled :
    answersOf (sampleRun (.bridge (some ⟨"launch-a", ["step"]⟩))).log =
        [statusResponse 2 "requested", ⟨1, true, none, none⟩] ∧
      Answered (sampleRun (.bridge (some ⟨"launch-a", ["step"]⟩))) := by
  refine ⟨by decide +kernel, (requests_answered _ _ _ _ _ ?_).2.2.1⟩
  refine ⟨nofun, nofun, ?_, trivial⟩
  intro reply id hreply hid
  cases hreply
  have hone : ((Session.start "launch-a" ⟨"direct", 1, 1⟩ [sampleLine 1 "step" (.obj [("_control", sampleKey.toValue)]),
      sampleLine 2 "cancel_operation" sampleKey.toValue]).run (.bridge (some ⟨"launch-a", ["step"]⟩))
      [sampleTurn, sampleTurn]).producer.mode.runningId = some 1 := by decide +kernel
  exact Option.some.inj (hone.symm.trans hid)

/-- The cancellation flag that the handler was given: without a key it is one that nobody sets. -/
def Mode.flag : Mode → Option Bool
  | .serving _ _ => some false
  | .executing x => some x.cancelled
  | _ => none

/-- The same notice cannot be written for a request that runs under a key and for one that does not: the flag of the
first is set, the flag of the second is not. -/
theorem flag_unset_without_key :
    let lost : Choice := { sampleTurn with
      poll := .pending, write := .error "broken pipe", workingDue := true, workingWrite := .error "broken pipe" }
    let session (params : Json) : Session :=
      (Session.start "launch-a" ⟨"direct", 1, 1⟩ [sampleLine 1 "step" params]).run
        (.bridge (some ⟨"launch-a", ["step"]⟩)) [sampleTurn, lost]
    (session (.obj [("_control", sampleKey.toValue)])).log =
        [.consumed 0 (sampleLine 1 "step" (.obj [("_control", sampleKey.toValue)])), .started 0, .lost 0] ∧
      (session (.obj [("_control", sampleKey.toValue)])).producer.mode.flag = some true ∧
      (session (.obj [])).log = [.consumed 0 (sampleLine 1 "step" (.obj [])), .started 0, .lost 0] ∧
      (session (.obj [])).producer.mode.flag = some false := by
  decide +kernel

end samples

end Emucap.Live.Reconnect
