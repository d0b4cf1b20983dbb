import Emucap.Live.Broker.Routing
import Emucap.Live.Reconnect.Owned

/-!
# Broker and producer agree on ownership

The producer's two readers consume the lines the broker handed to its registration. Whatever the split
between them, the route and a running request stay in step with the block the stream is in
(`Agrees`): the stream's next line is then always one that the reader accepts.
-/

namespace Emucap.Live.Reconnect

open Emucap.Lib Emucap.Live.Broker

/-- A fault by which the producer disagrees with the broker about the control session. -/
def Fault.ownership : Fault → Bool
  | .envelope _ | .lifecycleRuntime | .invalidAttachment _ | .registrationChanged
  | .replacedWithoutDetach | .noSession | .requestMismatch | .transportMetadata | .unnegotiated
  | .attachBeforeDetach | .missingAttachment | .attachmentMismatch => true
  | _ => false

def SessionEnd.Sound : SessionEnd → Prop
  | .frontDisconnected => True
  | .dependencyTerminal fault => fault.ownership = false
  | .failed fault => fault.ownership = false

section

variable {inst : Instance} {front : Broker.Conn → Option Front} {gen n : Nat} {rt : String}

/-- What the broker guarantees of a registration that opted in. -/
structure Opted (gen n : Nat) (rt : String) : Prop where
  gen_pos : 0 < gen
  gen_le : gen ≤ n
  bound : n < 2 ^ 64
  runtime : rt ≠ "" ∧ rt.utf8ByteSize ≤ 256

theorem attachment_valid (ho : Opted gen n rt) {s : Nat} (hs : 0 < s) :
    (attachment inst gen s).Valid := by
  have hlen := inst.length
  refine ⟨fun hname => ?_, ?_, ho.gen_pos.ne', hs.ne'⟩
  · rw [show inst.name = "" from hname] at hlen
    cases hlen
  · show inst.name.utf8ByteSize ≤ 256
    omega

theorem fromEnvelope_lifecycle (ho : Opted gen n rt) {s : Nat} (hs : 0 < s) (hn : s ≤ n)
    (kind : EventKind) :
    SessionEvent.fromEnvelope (SessionEvent.envelope ⟨kind, rt, attachment inst gen s⟩) =
      .ok (some ⟨kind, rt, attachment inst gen s⟩) := by
  have hbound := ho.bound
  have hgen := ho.gen_le
  exact SessionEvent.fromEnvelope_envelope (show gen < 2 ^ 64 by omega) (show s < 2 ^ 64 by omega)
    (attachment_valid ho hs) ho.runtime.1 ho.runtime.2

/-! ## The route and the stream -/

/-- The route is in step with a stream whose open block is `current`. -/
def RouteAt (inst : Instance) (gen : Nat) (rt : String) (current : Option Nat) (r : Route) : Prop :=
  r.runtime = rt ∧ ((r.broker = none ∧ current = none) ∨
    (r.broker = some (inst.name, gen) ∧ r.current = current.map (attachment inst gen)))

theorem lifecycle_continue {handler : Lifecycle} (hc : ∀ e, handler e = .ok .continue)
    (e : SessionEvent) : lifecycle handler e = .ok () := by
  rw [lifecycle, hc e]

theorem close_continue {handler : Lifecycle} (hc : ∀ e, handler e = .ok .continue) (r : Route) :
    r.close handler = (.ok (), { r with current := none }) := by
  unfold Route.close
  split
  · rename_i hcur
    rw [← hcur]
  · rw [lifecycle_continue hc]

theorem apply_attach (ho : Opted gen n rt) {handler : Lifecycle}
    (hc : ∀ e, handler e = .ok .continue) {r : Route} (hr : RouteAt inst gen rt none r) {s : Nat}
    (hs : 0 < s) : r.apply handler ⟨.attach, rt, attachment inst gen s⟩ =
      (.ok (), ⟨rt, some (attachment inst gen s), some (inst.name, gen)⟩) := by
  have hvalid : (attachment inst gen s).validate = .ok () := if_pos (attachment_valid ho hs)
  obtain ⟨rfl, ⟨hbroker, -⟩ | ⟨hbroker, hcur⟩⟩ := hr
  · simp [Route.apply, hvalid, Route.attach, Route.adopt, hbroker, close_continue hc,
      lifecycle_continue hc]
  · have hcur : r.current = none := hcur
    simp [Route.apply, hvalid, Route.attach, Route.adopt, hbroker, hcur, lifecycle_continue hc]

theorem apply_detach (ho : Opted gen n rt) {handler : Lifecycle}
    (hc : ∀ e, handler e = .ok .continue) {s : Nat} (hs : 0 < s) {r : Route}
    (hrt : r.runtime = rt) (hcur : r.current = some (attachment inst gen s)) :
    r.apply handler ⟨.detach, rt, attachment inst gen s⟩ = (.ok (), { r with current := none }) := by
  have hvalid : (attachment inst gen s).validate = .ok () := if_pos (attachment_valid ho hs)
  simp [Route.apply, hrt, hvalid, hcur, close_continue hc]

/-! ## Requests of a session -/

theorem requestAttachment_stamped {s : Nat} (ho : Opted gen n rt) (hs : s ≤ n) {r : Route}
    (hbroker : r.broker = some (inst.name, gen)) (hcur : r.current = some (attachment inst gen s))
    {request : Request} (hstamp : request.params.get attachmentField = some (attachment inst gen s).toValue) :
    r.requestAttachment request = .ok (attachment inst gen s,
      { request with params := request.params.remove attachmentField }) := by
  have hbound := ho.bound
  have hgen := ho.gen_le
  have hparse := Attachment.fromValue_toValue (a := attachment inst gen s)
    (show gen < 2 ^ 64 by omega) (show s < 2 ^ 64 by omega)
  simp [Route.requestAttachment, hcur, hbroker, hstamp, hparse]

theorem takeStamp_stamped {s : Nat} (ho : Opted gen n rt) (hs : s ≤ n) {v : Json}
    (hv : Stamped v (attachment inst gen s)) :
    ∃ v', takeStamp v (some (attachment inst gen s)) = .ok v' := by
  obtain ⟨⟨params, hparams, hstamp⟩, -⟩ := hv
  have hbound := ho.bound
  have hgen := ho.gen_le
  have hparse := Attachment.fromValue_toValue (a := attachment inst gen s)
    (show gen < 2 ^ 64 by omega) (show s < 2 ^ 64 by omega)
  have hfilter : (v.get "params").filter Json.isObject = some params := by
    rw [hparams, Option.filter_some, if_pos (Json.isObject_of_get hstamp)]
  refine ⟨v.set "params" (params.remove attachmentField), ?_⟩
  simp [takeStamp, hfilter, hstamp, hparse]

theorem fromEnvelope_plain {v : Json} (hv : v.get eventField = none) :
    SessionEvent.fromEnvelope v = .ok none := by
  rw [SessionEvent.fromEnvelope, hv]

/-! ## A running request -/

/-- A running request is in step with the stream: its block is open, or it has seen its detach. -/
structure ExecAt (inst : Instance) (gen : Nat) (rt : String) (current : Option Nat) (route : Route)
    (x : Execution) : Prop where
  key : x.key.runtime = rt
  fault : ∀ f, x.transportError = some f → f.ownership = false
  session : ∃ s, 0 < s ∧ route = ⟨rt, some (attachment inst gen s), some (inst.name, gen)⟩ ∧
    x.attachment = some (attachment inst gen s) ∧
    ((x.sessionEvent = none ∧ current = some s) ∨
      (x.sessionEvent = some ⟨.detach, rt, attachment inst gen s⟩ ∧ current = none))

variable {current : Option Nat} {route : Route} {x : Execution}

theorem ExecAt.fail (h : ExecAt inst gen rt current route x) {fault : Fault}
    (hf : fault.ownership = false) : ExecAt inst gen rt current route (x.fail fault) where
  key := h.key
  fault := fun f hfault => by
    obtain rfl : fault = f := Option.some.inj hfault
    exact hf
  session := h.session

theorem answer_fields (x : Execution) (request : Request) :
    (x.answer request).2.key = x.key ∧ (x.answer request).2.attachment = x.attachment ∧
      (x.answer request).2.transportError = x.transportError ∧
      (x.answer request).2.sessionEvent = x.sessionEvent := by
  unfold Execution.answer
  split_ifs
  · exact ⟨rfl, rfl, rfl, rfl⟩
  · split
    · exact ⟨rfl, rfl, rfl, rfl⟩
    · split_ifs <;> exact ⟨rfl, rfl, rfl, rfl⟩
  · exact ⟨rfl, rfl, rfl, rfl⟩

theorem ExecAt.answer (h : ExecAt inst gen rt current route x) (request : Request) :
    ExecAt inst gen rt current route (x.answer request).2 := by
  obtain ⟨hkey, hatt, hfault, hevent⟩ := answer_fields x request
  refine ⟨hkey ▸ h.key, hfault ▸ h.fault, ?_⟩
  obtain ⟨s, hs, hroute, hatt', hevent'⟩ := h.session
  exact ⟨s, hs, hroute, hatt.trans hatt', hevent ▸ hevent'⟩

theorem ExecAt.control (ho : Opted gen n rt) (h : ExecAt inst gen rt current route x)
    (hquiet : x.sessionEvent = none) {m : Nat} {st : Bracket.State Nat} {item : Handed}
    (hstep : Bracket.Step (brackets inst front gen rt) ⟨m, current⟩ item st)
    (hle : ∀ s, current = some s → s ≤ n) :
    ExecAt inst gen rt st.current route (x.control item.line).2 := by
  obtain ⟨s, hs, hroute, hatt, hevent⟩ := h.session
  have hcur : current = some s := by
    rcases hevent with ⟨-, hcur⟩ | ⟨hsome, -⟩
    · exact hcur
    · rw [hquiet] at hsome; cases hsome
  subst hcur
  have hsn := hle s rfl
  cases hstep with
  | inside hin =>
    obtain ⟨conn, f, v, -, -, -, -, hline, hstamped⟩ := hin
    obtain ⟨v', hv'⟩ := takeStamp_stamped ho hsn hstamped
    rw [hline]
    unfold Execution.control
    rw [if_neg (by simp [Line.isBlank])]
    cases hr : Request.fromValue v' with
    | none =>
      have hparse : x.parseControl (.doc v) = .error .malformed := by
        simp [Execution.parseControl, Line.parse, fromEnvelope_plain hstamped.plain, hatt, hv', hr]
      rw [hparse]
      exact h.fail rfl
    | some request =>
      have hparse : x.parseControl (.doc v) = .ok (.request request) := by
        simp [Execution.parseControl, Line.parse, fromEnvelope_plain hstamped.plain, hatt, hv', hr]
      rw [hparse]
      exact h.answer request
  | closing hclose =>
    have hparse : x.parseControl item.line =
        .ok (.event (some ⟨.detach, rt, attachment inst gen s⟩)) := by
      rw [show item.line = .doc (SessionEvent.envelope ⟨.detach, rt, attachment inst gen s⟩) by
        rw [hclose]; rfl]
      simp [Execution.parseControl, Line.parse, fromEnvelope_lifecycle ho hs hsn, hatt, h.key]
    have hblank : item.line.isBlank = false := by rw [hclose]; rfl
    rw [Execution.control, hblank, hparse]
    exact ⟨h.key, h.fault, s, hs, hroute, hatt, Or.inr ⟨rfl, rfl⟩⟩

/-! ## One turn -/

/-- The producer is in step with a stream whose open block is `current`. -/
def InMode (inst : Instance) (gen : Nat) (rt : String) (current : Option Nat) (p : Producer) : Prop :=
  match p.mode with
  | .idle => RouteAt inst gen rt current p.route
  | .serving _ fault => RouteAt inst gen rt current p.route ∧ ∀ f, fault = some f → f.ownership = false
  | .executing x => ExecAt inst gen rt current p.route x
  | .ended result => result.Sound

/-- `p'` comes from `p` without reading a line or calling the handler. -/
structure Keeps (inst : Instance) (gen : Nat) (rt : String) (current : Option Nat)
    (p p' : Producer) : Prop where
  position : p'.position = p.position
  unread : p'.unread = p.unread
  calls : p'.calls = p.calls
  inMode : InMode inst gen rt current p'

variable {p : Producer} {c : Choice}

theorem keeps_self (h : InMode inst gen rt current p) : Keeps inst gen rt current p p :=
  ⟨rfl, rfl, rfl, h⟩

theorem keeps_fail {fault : Fault} (hf : fault.ownership = false) :
    Keeps inst gen rt current p (p.fail fault) :=
  ⟨rfl, rfl, rfl, hf⟩

theorem keeps_terminal {fault : Fault} (hf : fault.ownership = false) :
    Keeps inst gen rt current p (p.terminal fault) :=
  ⟨rfl, rfl, rfl, hf⟩

theorem keeps_write (h : InMode inst gen rt current p) (response : Response) :
    Keeps inst gen rt current p (p.write c response) := by
  unfold Producer.write
  split
  · exact keeps_fail rfl
  · exact ⟨rfl, rfl, rfl, h⟩

theorem keeps_settle (hr : RouteAt inst gen rt current p.route) (directive : BridgeDirective)
    {fault : Option Fault} (hf : ∀ f, fault = some f → f.ownership = false) :
    Keeps inst gen rt current p (p.settle directive fault) := by
  unfold Producer.settle
  split
  · exact keeps_terminal rfl
  · exact keeps_fail (hf _ rfl)
  · exact ⟨rfl, rfl, rfl, hr⟩

theorem writeReply_spec (p : Producer) (write : Except String Unit) (reply : BridgeReply)
    {fault : Option Fault} (hf : ∀ f, fault = some f → f.ownership = false) :
    (∃ written, (p.writeReply write reply fault).1 = { p with written := written }) ∧
      ∀ f, (p.writeReply write reply fault).2 = some f → f.ownership = false := by
  unfold Producer.writeReply
  split
  · exact ⟨⟨p.written, rfl⟩, fun f h => hf f h⟩
  · split
    · exact ⟨⟨_, rfl⟩, fun f h => by cases h⟩
    · refine ⟨⟨p.written, rfl⟩, fun f h => ?_⟩
      cases h
      rfl

theorem keeps_serve (hr : RouteAt inst gen rt current p.route) {id : Nat} {fault : Option Fault}
    (hmode : p.mode = .serving id fault) (hf : ∀ f, fault = some f → f.ownership = false) :
    Keeps inst gen rt current p (p.serve c id fault) := by
  have hself : ∀ written, InMode inst gen rt current { p with written := written } := by
    intro written
    unfold InMode
    simp only [hmode]
    exact ⟨hr, hf⟩
  unfold Producer.serve
  split
  · exact keeps_fail rfl
  · split
    · exact ⟨rfl, rfl, rfl, hself _⟩
    · refine ⟨rfl, rfl, rfl, hr, fun f h => ?_⟩
      cases h
      rfl
    · exact keeps_self (hself p.written)
  · rename_i reply hreply
    obtain ⟨⟨written, hp⟩, hfault⟩ := writeReply_spec p c.write reply hf
    dsimp only
    rw [hp]
    obtain ⟨h1, h2, h3, h4⟩ := keeps_settle (p := { p with written := written }) hr reply.directive hfault
    exact ⟨h1, h2, h3, h4⟩

theorem ExecAt.routeAt (h : ExecAt inst gen rt current route x) (hquiet : x.sessionEvent = none) :
    RouteAt inst gen rt current route := by
  obtain ⟨s, -, rfl, -, ⟨-, rfl⟩ | ⟨hsome, -⟩⟩ := h.session
  · exact ⟨rfl, Or.inr ⟨rfl, rfl⟩⟩
  · rw [hquiet] at hsome; cases hsome

theorem keeps_complete (ho : Opted gen n rt) (hc : ∀ e, c.lifecycle e = .ok .continue)
    (h : ExecAt inst gen rt current p.route x) (directive : BridgeDirective) {fault : Option Fault}
    (hf : ∀ f, fault = some f → f.ownership = false) :
    Keeps inst gen rt current p (p.complete c x directive fault) := by
  unfold Producer.complete
  cases hevent : x.sessionEvent with
  | none => exact keeps_settle (h.routeAt hevent) directive hf
  | some event =>
    obtain ⟨s, hs, hroute, -, ⟨hnone, -⟩ | ⟨hsome, rfl⟩⟩ := h.session
    · rw [hevent] at hnone; cases hnone
    · obtain rfl : event = ⟨.detach, rt, attachment inst gen s⟩ :=
        Option.some.inj (hevent.symm.trans hsome)
      have happly := apply_detach ho hc hs (r := p.route) (by rw [hroute]) (by rw [hroute])
      simp only [happly]
      have hat : RouteAt inst gen rt none { p.route with current := none } := by
        rw [hroute]
        exact ⟨rfl, Or.inr ⟨rfl, rfl⟩⟩
      obtain ⟨h1, h2, h3, h4⟩ :=
        keeps_settle (p := { p with route := { p.route with current := none } }) hat directive hf
      exact ⟨h1, h2, h3, h4⟩

theorem keeps_working (h : ExecAt inst gen rt current p.route x) :
    Keeps inst gen rt current p (p.working c x) := by
  unfold Producer.working
  split_ifs
  · split
    · exact ⟨rfl, rfl, rfl, h⟩
    · exact ⟨rfl, rfl, rfl, h.fail rfl⟩
  · exact ⟨rfl, rfl, rfl, h⟩

/-! ## Calls of the handler -/

/-- The call was made for a line of the stream that a frontend submitted, with that frontend's
attachment, while the block of its session was open. -/
def ServedBy (inst : Instance) (front : Broker.Conn → Option Front) (gen : Nat) (rt : String)
    (lines : List Handed) (call : Served) : Prop :=
  ∃ before item after conn f v request m, lines = before ++ item :: after ∧
    before.length = call.position ∧ item.source = some conn ∧ front conn = some f ∧
    f.registration = gen ∧ item.line = .doc v ∧ Request.fromValue v = some request ∧
    call.request = { request with params := request.params.remove attachmentField } ∧
    call.attachment = attachment inst gen f.session ∧
    Trace (Bracket.Step (brackets inst front gen rt)) ⟨0, none⟩ before ⟨m, some f.session⟩

/-- `p'` comes from `p` without reading a line; its new calls are in order. -/
structure Moves (inst : Instance) (front : Broker.Conn → Option Front) (gen : Nat) (rt : String)
    (lines : List Handed) (current : Option Nat) (p p' : Producer) : Prop where
  position : p'.position = p.position
  unread : p'.unread = p.unread
  calls : ∀ call ∈ p'.calls, call ∈ p.calls ∨ ServedBy inst front gen rt lines call
  inMode : InMode inst gen rt current p'

variable {a : TemporalAdmission} {lines : List Handed} {p' : Producer}

theorem Keeps.moves (h : Keeps inst gen rt current p p') :
    Moves inst front gen rt lines current p p' :=
  ⟨h.position, h.unread, fun _ hc => Or.inl (h.calls ▸ hc), h.inMode⟩

theorem admitKey_fault {request : Request} {fault : Fault} (h : a.admitKey request = .error fault) :
    fault.ownership = false := by
  unfold TemporalAdmission.admitKey at h
  split at h
  · cases h
  · split_ifs at h
    · cases h; rfl
    · split at h
      · cases h; rfl
      · split at h
        · cases h; rfl
        · split_ifs at h
          cases h
          rfl
    · cases h; rfl

theorem parentKey_fault {request : Request} {fault : Fault} (h : parentKey request = .error fault) :
    fault.ownership = false := by
  unfold parentKey at h
  dsimp only at h
  split at h
  · cases h
  · split at h
    · cases h; rfl
    · cases h

theorem moves_dispatch (ho : Opted gen n rt) (ha : a.runtime = rt) {s : Nat} (hs : 0 < s)
    (hroute : p.route = ⟨rt, some (attachment inst gen s), some (inst.name, gen)⟩) {position : Nat}
    {request : Request}
    (hserved : ServedBy inst front gen rt lines ⟨position, attachment inst gen s, request⟩) :
    Moves inst front gen rt lines (some s) p
      (p.dispatch a c position (attachment inst gen s) request) := by
  have hcalls : ∀ call ∈ p.calls ++ [⟨position, attachment inst gen s, request⟩],
      call ∈ p.calls ∨ ServedBy inst front gen rt lines call := by
    intro call hcall
    rcases List.mem_append.mp hcall with hcall | hcall
    · exact Or.inl hcall
    · rw [List.mem_singleton.mp hcall]
      exact Or.inr hserved
  have hvalid : (attachment inst gen s).validate = .ok () := if_pos (attachment_valid ho hs)
  have hat : RouteAt inst gen rt (some s) p.route := by
    rw [hroute]
    exact ⟨rfl, Or.inr ⟨rfl, rfl⟩⟩
  unfold Producer.dispatch
  split
  · rename_i hadmit
    exact (keeps_fail (admitKey_fault hadmit)).moves
  · rename_i hparent
    exact (keeps_fail (parentKey_fault hparent)).moves
  · dsimp only
    split
    · exact ⟨rfl, rfl, hcalls, hat, fun f hf => by cases hf⟩
    · rename_i key hkey
      split
      · exact (keeps_fail rfl).moves
      · split_ifs with hrt
        · exact (keeps_fail rfl).moves
        · rw [hroute]
          simp only [Option.map_some, hvalid]
          split
          · rename_i heq; cases heq
          · exact (keeps_fail rfl).moves
          · refine ⟨rfl, rfl, hcalls, ?_⟩
            refine ⟨?_, ?_, s, hs, rfl, rfl, Or.inl ⟨rfl, rfl⟩⟩
            · exact (not_not.mp hrt).trans ha
            · intro f hf; cases hf

theorem moves_request (ho : Opted gen n rt) (ha : a.runtime = rt) {s : Nat} (hs : 0 < s) (hsn : s ≤ n)
    (hmode : p.mode = .idle)
    (hroute : p.route = ⟨rt, some (attachment inst gen s), some (inst.name, gen)⟩) {position : Nat}
    {v : Json} (hstamped : Stamped v (attachment inst gen s))
    (hserved : ∀ request, Request.fromValue v = some request → ServedBy inst front gen rt lines
      ⟨position, attachment inst gen s,
        { request with params := request.params.remove attachmentField }⟩) :
    Moves inst front gen rt lines (some s) p (p.request a c position v) := by
  have hself : InMode inst gen rt (some s) p := by
    unfold InMode
    rw [hmode, hroute]
    exact ⟨rfl, Or.inr ⟨rfl, rfl⟩⟩
  unfold Producer.request
  split_ifs
  · exact (keeps_fail rfl).moves
  · split
    · exact (keeps_fail rfl).moves
    · rename_i request hrequest
      split_ifs
      · exact (keeps_fail rfl).moves
      · obtain ⟨params, hparams, hstamp⟩ := hstamped.stamp
        have hown : request.params.get attachmentField = some (attachment inst gen s).toValue := by
          rw [Request.fromValue_params hparams hrequest, hstamp]
        have hread := requestAttachment_stamped ho hsn (r := p.route) (by rw [hroute]) (by rw [hroute])
          hown
        rw [hread]
        dsimp only
        split_ifs
        · split
          · exact (keeps_fail rfl).moves
          · split
            · exact (keeps_fail rfl).moves
            · exact (keeps_write hself _).moves
        · exact moves_dispatch ho ha hs hroute (hserved request hrequest)

theorem moves_receive (ho : Opted gen n rt) (ha : a.runtime = rt)
    (hc : ∀ e, c.lifecycle e = .ok .continue) (hmode : p.mode = .idle) {before after : List Handed}
    {item : Handed} {m : Nat} {st : Bracket.State Nat} {position : Nat}
    (hlines : lines = before ++ item :: after) (hposition : before.length = position)
    (hbefore : Trace (Bracket.Step (brackets inst front gen rt)) ⟨0, none⟩ before ⟨m, current⟩)
    (hstep : Bracket.Step (brackets inst front gen rt) ⟨m, current⟩ item st) (hlast : st.last ≤ n)
    (hroute : RouteAt inst gen rt current p.route) :
    Moves inst front gen rt lines st.current p (p.receive a c position item.line) := by
  have habove := Bracket.above hbefore (le_refl 0) fun _ hs => (nomatch hs)
  cases hstep with
  | @opening _ s _ hlt hopen =>
    have hs : 0 < s := Nat.zero_lt_of_lt hlt
    have hline : item.line = .doc (SessionEvent.envelope ⟨.attach, rt, attachment inst gen s⟩) := by
      rw [hopen]; rfl
    rw [hline, Producer.receive, if_neg (by simp [Line.isBlank])]
    simp only [Line.parse, fromEnvelope_lifecycle ho hs hlast, Producer.applyEvent,
      apply_attach ho hc hroute hs]
    refine ⟨rfl, rfl, fun _ hcall => Or.inl hcall, ?_⟩
    unfold InMode
    simp only [hmode]
    exact ⟨rfl, Or.inr ⟨rfl, rfl⟩⟩
  | @inside _ s _ hin =>
    obtain ⟨hms, hs⟩ := habove s rfl
    obtain ⟨conn, f, v, hsource, hfront, hreg, rfl, hline, hstamped⟩ := hin
    rw [hline, Producer.receive, if_neg (by simp [Line.isBlank])]
    simp only [Line.parse, fromEnvelope_plain hstamped.plain]
    obtain ⟨hrt, ⟨-, hnone⟩ | ⟨hbroker, hcur⟩⟩ := hroute
    · cases hnone
    · have hroute : p.route = ⟨rt, some (attachment inst gen f.session), some (inst.name, gen)⟩ := by
        cases hr : p.route
        rw [hr] at hrt hbroker hcur
        simp_all
      refine moves_request ho ha hs (by dsimp only at hms hlast; omega) hmode hroute hstamped ?_
      intro request hrequest
      exact ⟨before, item, after, conn, f, v, request, m, hlines, hposition, hsource, hfront, hreg, hline,
        hrequest, rfl, rfl, hbefore⟩
  | @closing _ s _ hclose =>
    obtain ⟨hms, hs⟩ := habove s rfl
    have hsn : s ≤ n := by dsimp only at hms hlast; omega
    have hline : item.line = .doc (SessionEvent.envelope ⟨.detach, rt, attachment inst gen s⟩) := by
      rw [hclose]; rfl
    rw [hline, Producer.receive, if_neg (by simp [Line.isBlank])]
    obtain ⟨hrt, ⟨-, hnone⟩ | ⟨hbroker, hcur⟩⟩ := hroute
    · cases hnone
    · simp only [Line.parse, fromEnvelope_lifecycle ho hs hsn, Producer.applyEvent,
        apply_detach ho hc hs hrt hcur]
      refine ⟨rfl, rfl, fun _ hcall => Or.inl hcall, ?_⟩
      unfold InMode
      simp only [hmode]
      exact ⟨hrt, Or.inr ⟨hbroker, rfl⟩⟩

/-! ## Whole runs -/

/-- The producer has read `before` of the stream and is in step with the block it is in. -/
def Agrees (inst : Instance) (front : Broker.Conn → Option Front) (gen n : Nat) (rt : String)
    (lines : List Handed) (p : Producer) : Prop :=
  ∃ before after st st', lines = before ++ after ∧ before.length = p.position ∧
    after.map (·.line) = p.unread ∧
    Trace (Bracket.Step (brackets inst front gen rt)) ⟨0, none⟩ before st ∧
    Trace (Bracket.Step (brackets inst front gen rt)) st after st' ∧ st'.last ≤ n ∧
    InMode inst gen rt st.current p ∧ ∀ call ∈ p.calls, ServedBy inst front gen rt lines call

theorem agrees_new (direct : Attachment) {st : Bracket.State Nat}
    (htrace : Trace (Bracket.Step (brackets inst front gen rt)) ⟨0, none⟩ lines st)
    (hlast : st.last ≤ n) :
    Agrees inst front gen n rt lines (.new rt direct (lines.map (·.line))) :=
  ⟨[], lines, ⟨0, none⟩, st, rfl, rfl, rfl, Trace.nil _, htrace, hlast, ⟨rfl, Or.inl ⟨rfl, rfl⟩⟩,
    fun _ hc => (nomatch hc)⟩

theorem agrees_step (ho : Opted gen n rt) (ha : a.runtime = rt)
    (hc : ∀ e, c.lifecycle e = .ok .continue) (h : Agrees inst front gen n rt lines p) :
    Agrees inst front gen n rt lines (p.step a c) := by
  obtain ⟨before, after, st, st', hlines, hposition, hunread, hbefore, hafter, hlast, hmode, hcalls⟩ := h
  have stay : ∀ {p'}, Keeps inst gen rt st.current p p' → Agrees inst front gen n rt lines p' := by
    intro p' hk
    exact ⟨before, after, st, st', hlines, hposition.trans hk.position.symm,
      hunread.trans hk.unread.symm, hbefore, hafter, hlast, hk.inMode, hk.calls ▸ hcalls⟩
  -- the next line of the stream, read by either loop
  have advance : ∀ {line unread}, p.unread = line :: unread → ∃ item rest mid,
      item.line = line ∧ lines = before ++ item :: rest ∧
      Bracket.Step (brackets inst front gen rt) st item mid ∧ mid.last ≤ n ∧
      ∀ {p'}, Moves inst front gen rt lines mid.current
        { p with position := p.position + 1, unread := unread } p' →
        Agrees inst front gen n rt lines p' := by
    intro line unread hp
    rw [hp] at hunread
    obtain ⟨item, rest, rfl, hline, hrest⟩ := List.map_eq_cons_iff.mp hunread
    cases hafter with
    | @cons _ mid _ _ _ hstep hafter =>
      refine ⟨item, rest, mid, hline, hlines, hstep, (Bracket.last_le hafter).trans hlast, ?_⟩
      intro p' hm
      refine ⟨before ++ [item], rest, mid, st', by simp [hlines], ?_, hrest.trans hm.unread.symm,
        hbefore.snoc hstep, hafter, hlast, hm.inMode, fun call hcall => ?_⟩
      · rw [List.length_append, hposition, hm.position]
        rfl
      · rcases hm.calls call hcall with hold | hnew
        · exact hcalls call hold
        · exact hnew
  obtain ⟨m, current⟩ := st
  unfold Producer.step
  cases hm : p.mode with
  | idle =>
    have hroute : RouteAt inst gen rt current p.route := by simpa only [InMode, hm] using hmode
    dsimp only
    unfold Producer.idle
    split
    · exact stay (keeps_terminal rfl)
    · split
      · rename_i line unread _ hp
        obtain ⟨item, rest, mid, rfl, hsplit, hstep, hmid, hadvance⟩ := advance hp
        exact hadvance (moves_receive (p := { p with position := p.position + 1, unread := unread })
          ho ha hc hm hsplit hposition hbefore hstep hmid hroute)
      · exact stay ⟨rfl, rfl, rfl, trivial⟩
      · exact stay (keeps_fail rfl)
      · exact stay (keeps_self hmode)
  | serving id fault =>
    have hserving : RouteAt inst gen rt current p.route ∧
        ∀ f, fault = some f → f.ownership = false := by
      simpa only [InMode, hm] using hmode
    exact stay (keeps_serve hserving.1 hm hserving.2)
  | executing x =>
    have hexec : ExecAt inst gen rt current p.route x := by simpa only [InMode, hm] using hmode
    dsimp only
    unfold Producer.execute
    split
    · exact stay (keeps_fail rfl)
    · rename_i reply _
      obtain ⟨⟨written, hp⟩, hfault⟩ := writeReply_spec p c.write reply hexec.fault
      dsimp only
      rw [hp]
      have hdone : ∀ restored : Option Fault, (∀ f, restored = some f → f.ownership = false) →
          Agrees inst front gen n rt lines (({ p with written := written } : Producer).complete c x reply.directive
            ((p.writeReply c.write reply x.transportError).2.or restored)) := by
        intro restored hrestored
        obtain ⟨h1, h2, h3, h4⟩ := keeps_complete (p := { p with written := written }) ho hc hexec reply.directive
          fun f hf => (Option.or_eq_some_iff.mp hf).elim (hfault f) fun hf => hrestored f hf.2
        exact stay ⟨h1, h2, h3, h4⟩
      cases c.readTimeout with
      | ok => exact hdone none fun f hf => by cases hf
      | error reason => exact hdone (some (.outside reason)) fun f hf => by cases hf; rfl
    · split_ifs with hlost
      · exact stay (keeps_self hmode)
      · have hquiet : x.sessionEvent = none := by
          simpa using fun h => hlost (Or.inr h)
        unfold Producer.control
        split
        · rename_i line unread _ hp
          obtain ⟨item, rest, mid, rfl, -, hstep, hmid, hadvance⟩ := advance hp
          have hctl := hexec.control ho hquiet hstep fun s hs =>
            ((Bracket.above hbefore (le_refl 0) fun _ hs => by cases hs) s hs).1 ▸
              hstep.last_le.trans hmid
          dsimp only
          split
          · rename_i x' hx
            rw [hx] at hctl
            exact hadvance (keeps_working (p := { p with
              position := p.position + 1, unread := unread }) hctl).moves
          · rename_i response x' hx _
            rw [hx] at hctl
            obtain ⟨h1, h2, h3, h4⟩ := keeps_working (c := c) (p := { p with
              position := p.position + 1, unread := unread, written := p.written ++ [response] }) hctl
            exact hadvance (Keeps.moves ⟨h1, h2, h3, h4⟩)
          · rename_i response x' hx _
            rw [hx] at hctl
            exact hadvance (keeps_working (p := { p with
              position := p.position + 1, unread := unread }) (hctl.fail rfl)).moves
        · exact stay (keeps_working (hexec.fail rfl))
        · exact stay (keeps_working (hexec.fail rfl))
        · exact stay (keeps_working hexec)
  | ended result => exact stay (keeps_self hmode)

theorem agrees_run (ho : Opted gen n rt) (ha : a.runtime = rt) {choices : List Choice}
    (hc : ∀ c ∈ choices, ∀ e, c.lifecycle e = .ok .continue)
    (h : Agrees inst front gen n rt lines p) : Agrees inst front gen n rt lines (p.run a choices) := by
  induction choices generalizing p with
  | nil => exact h
  | cons c choices ih =>
    exact ih (fun c' hc' => hc c' (List.mem_cons_of_mem c hc'))
      (agrees_step ho ha (hc c List.mem_cons_self) h)

end

/-- A producer that reads what the broker delivered to its registration never disagrees with it about
the control session, and every request reaches the handler with the attachment of the frontend that
submitted it, attached last and not yet detached. The producer's runtime is the launch id it registered
with: both come from `EMUCAP_LAUNCH_ID`. -/
theorem ownership_agrees {inst : Instance} {w : World} (hw : w.Reachable inst) {name : String} {e : Emu}
    (he : w.reg.find name = some e) {rt : String} (hrt : e.lifecycleRuntime = some rt)
    {lines : List Line} (hlines : lines <+: e.toEmu.sent) {a : TemporalAdmission} (ha : a.runtime = rt)
    (direct : Attachment) {choices : List Choice}
    (hc : ∀ c ∈ choices, ∀ ev, c.lifecycle ev = .ok .continue) :
    (∀ result, ((Producer.new rt direct lines).run a choices).mode = .ended result → result.Sound) ∧
      (∀ x fault, ((Producer.new rt direct lines).run a choices).mode = .executing x →
        x.transportError = some fault → fault.ownership = false) ∧
      ∀ call ∈ ((Producer.new rt direct lines).run a choices).calls,
        ∃ before item after conn f v request,
          e.toEmu.handed = before ++ item :: after ∧ before.length = call.position ∧
          item.source = some conn ∧ w.front conn = some f ∧ f.registration = e.gen ∧
          item.line = .doc v ∧ Request.fromValue v = some request ∧
          call.request = { request with params := request.params.remove attachmentField } ∧
          call.attachment = attachment inst e.gen f.session ∧
          ∃ earlier body, before = earlier ++ lifecycleLine inst e.gen rt f.session .attach :: body ∧
            ∀ i ∈ body, i.source.isSome := by
  have hinv := hw.inv
  have hemu := hinv.emu name e he
  have ho : Opted e.gen w.reg.nextGen rt := ⟨hemu.gen_pos, hemu.gen_le, hinv.bound, hemu.runtime rt hrt⟩
  obtain ⟨st, htrace, hlast, -⟩ := hemu.bracketed rt hrt
  -- the lines read are those of the first entries of the history
  have hread : lines = (e.toEmu.handed.take lines.length).map (·.line) := by
    rw [List.map_take]
    exact List.prefix_iff_eq_take.mp (hlines.trans hemu.flows.sent)
  have hsplit : e.toEmu.handed.take lines.length ++ e.toEmu.handed.drop lines.length =
      e.toEmu.handed := List.take_append_drop _ _
  rw [← hsplit] at htrace
  obtain ⟨mid, hfirst, hrest⟩ := htrace.split
  have hnew : Agrees inst w.front e.gen w.reg.nextGen rt (e.toEmu.handed.take lines.length)
      (.new rt direct lines) := by
    have := agrees_new direct hfirst ((Bracket.last_le hrest).trans hlast)
    rwa [← hread] at this
  obtain ⟨before, after, st', st'', -, -, -, -, -, -, hmode, hcalls⟩ := agrees_run ho ha hc hnew
  refine ⟨fun result hm => ?_, fun x fault hm hfault => ?_, fun call hcall => ?_⟩
  · simpa only [InMode, hm] using hmode
  · simp only [InMode, hm] at hmode
    exact hmode.fault fault hfault
  · obtain ⟨before, item, after, conn, f, v, request, m, hpre, hposition, hsource, hfront, hreg, hline,
      hrequest, hcallreq, hatt, hopen⟩ := hcalls call hcall
    refine ⟨before, item, after ++ e.toEmu.handed.drop lines.length, conn, f, v, request, ?_, hposition,
      hsource, hfront, hreg, hline, hrequest, hcallreq, hatt, ?_⟩
    · rw [hpre] at hsplit
      exact hsplit.symm.trans (by simp)
    · obtain ⟨earlier, first, body, hbefore, rfl, hbody⟩ := Bracket.of_current hopen
      refine ⟨earlier, body, hbefore, fun i hi => ?_⟩
      obtain ⟨c, _, _, hc, -⟩ := hbody i hi
      rw [hc]
      rfl

/-- The second frontend's request is served after the first one's detach was read while its own request
was running. -/
theorem ownership_agrees_after_steal :
    let inst : Instance := ⟨"01JZZZZZZZZZZZZZZZZZZZZZZZ01JYYYYYYYYYYYYYYYYYYYYYYY", by decide⟩
    let hello : Json := .obj [("control_session_lifecycle", .bool true), ("launch_id", .str "rt"),
      ("name", .str "emu")]
    let key : Json := OperationKey.toValue ⟨"rt", "owner", "op"⟩
    let request (id : Nat) : Line := .doc (.obj [("id", .nat id), ("method", .str "step"),
      ("params", .obj [("_control", key)]), ("v", .nat 1)])
    let steal : Json := .obj [("params", .obj [("expected_registration_id", .nat 1)])]
    let send : List Act := [.take "emu", .write "emu" true]
    let w := (World.new inst).run ([.register hello, .attach 10 (.obj []), .submit 10 (request 5),
      .hand 0] ++ send ++ [.attach 11 steal] ++ send ++ send ++ send ++
      [.submit 11 (request 6), .hand 0] ++ send)
    let turn (worker : Worker) : Choice :=
      ⟨none, .next, fun _ => .ok .continue, none, worker, .ok (), .ok (), false, .ok ()⟩
    let done : Worker := .replied ⟨statusResponse 0 "done", .continue⟩
    let a : TemporalAdmission := ⟨"rt", ["step"]⟩
    ∃ e, w.reg.find "emu" = some e ∧ e.toEmu.sent.length = 5 ∧
      (((Producer.new "rt" ⟨"direct", 1, 1⟩ e.toEmu.sent).run a [turn .running, turn .running,
        turn .running, turn done, turn .running, turn .running]).calls.map fun call =>
          (call.position, call.attachment.session)) = [(1, 2), (4, 3)] ∧
      ∀ result, ((Producer.new "rt" ⟨"direct", 1, 1⟩ e.toEmu.sent).run a [turn .running, turn .running,
        turn .running, turn done, turn .running, turn .running]).mode = .ended result →
          result.Sound := by
  intro inst hello key request steal send w turn done a
  have hw : w.Reachable inst := World.Reachable.new.run _
  have hshape : (w.reg.find "emu").map (fun e => (e.lifecycleRuntime, e.toEmu.sent.length,
      ((Producer.new "rt" ⟨"direct", 1, 1⟩ e.toEmu.sent).run a [turn .running, turn .running,
        turn .running, turn done, turn .running, turn .running]).calls.map fun call =>
          (call.position, call.attachment.session))) = some (some "rt", 5, [(1, 2), (4, 3)]) := by
    decide +kernel
  obtain ⟨e, he, hfields⟩ := Option.map_eq_some_iff.mp hshape
  simp only [Prod.mk.injEq] at hfields
  obtain ⟨hrt, hlen, hcalls⟩ := hfields
  refine ⟨e, he, hlen, hcalls, ?_⟩
  refine (ownership_agrees hw he hrt List.prefix_rfl (a := a) rfl ⟨"direct", 1, 1⟩ ?_).1
  intro c hc ev
  simp only [List.mem_cons, List.not_mem_nil, or_false] at hc
  rcases hc with rfl | rfl | rfl | rfl | rfl | rfl <;> rfl

end Emucap.Live.Reconnect
