import Emucap.Live.Broker.Fence
import Emucap.Live.ControlSession

/-!
# The broker's registry

Producers register under a name and a generation, frontends attach to them, and each registration has one bounded
writer (`live/broker.rs`, `live/broker/outbound.rs`). A definition is what one critical section does. `handed`,
`refused` and the `source` of a line are history.
-/

namespace Emucap.Live.Broker

open Emucap.Lib

abbrev Conn := Nat

/-! ## The writer of a registration -/

def queueFrames : Nat := 4

/-- A line handed to `enqueue`, with the frontend it came from; lifecycle lines are the broker's
own. -/
structure Handed where
  source : Option Conn
  line : Line
  deriving DecidableEq

structure Outbound where
  socketOpen : Bool
  receiving : Bool
  queue : List Line
  writing : Option Line
  sent : List Line
  handed : List Handed
  refused : Bool

namespace Outbound

def new : Outbound := ⟨true, true, [], none, [], [], false⟩

/-- The history of `enqueue` ends with the first line it refuses. -/
def record (o : Outbound) (h : Handed) : List Handed :=
  if o.refused then o.handed else o.handed ++ [h]

/-- `try_send` on the bounded channel; a failure shuts the producer's socket. -/
def enqueue (o : Outbound) (h : Handed) : Bool × Outbound :=
  if o.receiving = true ∧ o.queue.length < queueFrames then
    (true, { o with queue := o.queue ++ [h.line], handed := o.record h })
  else (false, { o with socketOpen := false, handed := o.record h, refused := true })

def take (o : Outbound) : Outbound :=
  match o.writing, o.queue with
  | none, line :: queue => if o.receiving then { o with writing := some line, queue := queue } else o
  | _, _ => o

def write (o : Outbound) (ok : Bool) : Outbound :=
  match o.writing with
  | none => o
  | some line =>
    if ok = true ∧ o.socketOpen = true then { o with writing := none, sent := o.sent ++ [line] }
    else { o with writing := none, receiving := false, socketOpen := false }

end Outbound

/-! ## Registrations -/

structure Emu where
  toEmu : Outbound
  lifecycleRuntime : Option String
  methods : List String
  identity : Json
  session : Option Conn
  gen : Nat
  sessionGen : Nat

/-- The broker's own identity: two ULIDs of 26 characters. -/
structure Instance where
  name : String
  length : name.utf8ByteSize = 52

structure Registry where
  inst : Instance
  emus : List (String × Emu)
  anon : Nat
  nextGen : Nat

namespace Registry

def new (inst : Instance) : Registry := ⟨inst, [], 0, 0⟩

def find (reg : Registry) (name : String) : Option Emu := OrdMap.find? name reg.emus

def put (reg : Registry) (name : String) (emu : Emu) : Registry :=
  { reg with emus := OrdMap.insert name emu reg.emus }

end Registry

/-- `EmulatorIdentity::has_mesen_native_halt` of a hello. -/
def hasMesenNativeHalt (hello : Json) : Bool :=
  let features := ((hello.get "host_features").bind Json.asArray).getD []
  let api := ((hello.get "mesen_host_api").bind Json.asU64).filter (· < 2 ^ 32)
  1 ≤ api.getD 0 && features.contains (.str "code_break_idle")
    && features.contains (.str "native_halt_service")

/-- The name of a producer that gave none: the first free `emu{n}`. -/
def anonymousName (emus : List (String × Emu)) (anon : Nat) : Option String × Nat :=
  if anon + 1 < 2 ^ 64 then
    let name := "emu" ++ toString (anon + 1)
    if (OrdMap.find? name emus).isSome then anonymousName emus (anon + 1) else (some name, anon + 1)
  else (none, anon)
termination_by 2 ^ 64 - anon

def helloName (reg : Registry) (hello : Json) : Option String × Nat :=
  match (hello.get "name").bind Json.asStr with
  | some name => (some name, reg.anon)
  | none => anonymousName reg.emus reg.anon

def register (reg : Registry) (hello : Json) : Option (String × Nat) × Registry :=
  match advertisedRuntime hello with
  | .error _ => (none, reg)
  | .ok runtime =>
    if (hello.get "adapter").bind Json.asStr = some "mesen2-live" ∧ hasMesenNativeHalt hello = false then
      (none, reg)
    else
      let methods := (((hello.get "methods").bind Json.asArray).getD []).filterMap Json.asStr
      let name := (helloName reg hello).1
      let reg := { reg with anon := (helloName reg hello).2 }
      match name with
      | none => (none, reg)
      | some name =>
        if (reg.find name).isSome then (none, reg)
        else if reg.nextGen + 1 < 2 ^ 64 then
          (some (name, reg.nextGen + 1),
            { reg with nextGen := reg.nextGen + 1 }.put name
              ⟨.new, runtime, methods, hello, none, reg.nextGen + 1, 0⟩)
        else (none, reg)

def emulatorGone : Line :=
  .doc (.obj [("error", .obj [("kind", .str "not_connected"), ("message", .str "emulator gone")]),
    ("id", .nat 0), ("ok", .bool false)])

/-- The end of `handle_emulator`: the registration goes, if it is still this one, and its session is
told. -/
def unregister (reg : Registry) (name : String) (gen : Nat) : Registry × Option (Conn × Line) :=
  match reg.find name with
  | some emu =>
    if emu.gen = gen then
      ({ reg with emus := OrdMap.erase name reg.emus }, emu.session.map fun s => (s, emulatorGone))
    else (reg, none)
  | none => (reg, none)

/-! ## Sessions -/

def attachment (inst : Instance) (registration session : Nat) : Attachment :=
  ⟨inst.name, registration, session⟩

@[simp] theorem attachment_brokerInstance (inst : Instance) (registration session : Nat) :
    (attachment inst registration session).brokerInstance = inst.name := rfl

@[simp] theorem attachment_registration (inst : Instance) (registration session : Nat) :
    (attachment inst registration session).registration = registration := rfl

def event (emu : Emu) (inst : Instance) (runtime : String) (session : Nat) (kind : EventKind) :
    SessionEvent :=
  ⟨kind, runtime, attachment inst emu.gen session⟩

/-- Hand a lifecycle line to the producer, if it opted in. -/
def lifecycle (emu : Emu) (inst : Instance) (session : Nat) (kind : EventKind) : Bool × Emu :=
  match emu.lifecycleRuntime with
  | none => (true, emu)
  | some runtime =>
    let r := emu.toEmu.enqueue ⟨none, .render (event emu inst runtime session kind).envelope⟩
    (r.1, { emu with toEmu := r.2 })

/-- Take the session a registration has away from it. -/
def dropSession (emu : Emu) (inst : Instance) : Bool × Emu :=
  if emu.session.isSome then lifecycle { emu with session := none } inst emu.sessionGen .detach
  else (true, emu)

/-- Pair a frontend with a registration; a session that was there is detached first. -/
def pairSession (emu : Emu) (inst : Instance) (writer : Conn) (session : Nat) : Bool × Emu :=
  let detached := dropSession emu inst
  if detached.1 then
    let attached := lifecycle detached.2 inst session .attach
    if attached.1 then (true, { attached.2 with session := some writer, sessionGen := session })
    else (false, attached.2)
  else (false, detached.2)

/-- The registration a frontend's route still leads to. -/
def routed (reg : Registry) (name : String) (registration session : Nat) : Option Emu :=
  (reg.find name).filter fun emu =>
    emu.gen = registration ∧ emu.sessionGen = session ∧ emu.session.isSome

def detachSession (reg : Registry) (name : String) (registration session : Nat) : Registry :=
  match routed reg name registration session with
  | none => reg
  | some emu => reg.put name (lifecycle { emu with session := none } reg.inst session .detach).2

/-- A frontend that attached: what its handler keeps. -/
structure Front where
  name : String
  registration : Nat
  session : Nat
  deriving DecidableEq

/-- Why an attach is refused; `exhausted` is the overflow of the generation counter. -/
inductive AttachError where
  | refused (error : Json)
  | exhausted

def kindError (kind : String) : Json := .obj [("kind", .str kind)]

def namesError (kind : String) (names : List String) : Json :=
  .obj [("kind", .str kind), ("names", .arr (names.map .str))]

def messageError (kind message : String) : Json :=
  .obj [("kind", .str kind), ("message", .str message)]

/-- The target of an attach. -/
def pick (reg : Registry) : Option String → Except Json (String × Emu)
  | some name =>
    match reg.find name with
    | some emu => .ok (name, emu)
    | none => .error (namesError "no_such_emulator" (reg.emus.map Prod.fst))
  | none =>
    match reg.emus with
    | [target] => .ok target
    | [] => .error (kindError "not_connected")
    | _ => .error (namesError "ambiguous" (reg.emus.map Prod.fst))

structure AttachParams where
  name : Option String
  expectedRegistrationId : Option Nat
  expectedLaunchId : Option String

def AttachParams.fromValue (av : Json) : AttachParams where
  name := ((av.get "params").bind (·.get "name")).bind Json.asStr
  expectedRegistrationId := ((av.get "params").bind (·.get "expected_registration_id")).bind Json.asU64
  expectedLaunchId := ((av.get "params").bind (·.get "expected_launch_id")).bind Json.asStr

def checkAttach (emu : Emu) (params : AttachParams) : Except Json Unit :=
  let sameRegistration := params.expectedRegistrationId.all fun expected => expected = emu.gen
  let sameLaunch := params.expectedLaunchId.any fun expected =>
    (emu.identity.get "launch_id").bind Json.asStr = some expected
  if params.expectedLaunchId.isSome ∧ sameLaunch = false then
    .error (messageError "identity_mismatch" "managed launch identity changed")
  else if sameRegistration = false ∧ sameLaunch = false then
    .error (messageError "identity_mismatch" "broker emulator registration changed")
  else if emu.session.isSome ∧ (params.expectedRegistrationId.isNone ∨ sameRegistration = false) then
    .error (kindError "busy")
  else .ok ()

/-- The critical section of `handle_session`: the generation is spent as soon as a target is picked,
and the session that was there is shut. The counter's `+=` is checked; an unchecked build would
differ after 2^64 attaches. -/
def attachSession (reg : Registry) (writer : Conn) (params : AttachParams) :
    Except AttachError Front × Registry × Option Conn :=
  match pick reg params.name with
  | .error e => (.error (.refused e), reg, none)
  | .ok (name, emu) =>
    if reg.nextGen + 1 < 2 ^ 64 then
      let reg := { reg with nextGen := reg.nextGen + 1 }
      match checkAttach emu params with
      | .error e => (.error (.refused e), reg, none)
      | .ok () =>
        let paired := pairSession emu reg.inst writer reg.nextGen
        let result := if paired.1 then .ok ⟨name, emu.gen, reg.nextGen⟩
          else .error (.refused (messageError "not_connected" "producer lifecycle delivery failed"))
        (result, reg.put name paired.2, emu.session)
    else (.error .exhausted, reg, none)

/-! ## Requests -/

def isPingLine (line : Line) : Bool :=
  line.parse.any fun v => (v.get "method").bind Json.asStr == some "_ping"

/-- Put an attachment into the parameters of a request. -/
def stampRequest (v : Json) (stamp : Attachment) : Except String Json :=
  match (v.get "params").filter Json.isObject with
  | none => .error "controlled request params must be an object"
  | some params => .ok (v.set "params" (params.set attachmentField stamp.toValue))

/-- `enqueue_request` up to the second lock: the line to admit, or `none` when the route is gone. -/
def prepareRequest (reg : Registry) (front : Front) (line : Line) : Except String (Option Line) :=
  if line.parse.any hasReservedFields then .error "reserved control lifecycle fields"
  else match routed reg front.name front.registration front.session with
    | none => .ok none
    | some emu =>
      match emu.lifecycleRuntime with
      | none => .ok (some line)
      | some _ =>
        match line.parse with
        | none => .error "invalid controlled request"
        | some v =>
          (stampRequest v (attachment reg.inst front.registration front.session)).map fun v =>
            some (.render v)

/-- The second lock: the route is checked again and the line handed over. -/
def admitRequest (reg : Registry) (front : Front) (source : Conn) (line : Line) : Registry :=
  match routed reg front.name front.registration front.session with
  | none => reg
  | some emu => reg.put front.name { emu with toEmu := (emu.toEmu.enqueue ⟨some source, line⟩).2 }

def responseTarget (reg : Registry) (name : String) (registration : Nat) : Option (Conn × Nat) :=
  match (reg.find name).filter fun emu => emu.gen = registration with
  | none => none
  | some emu => emu.session.map fun s => (s, emu.sessionGen)

end Emucap.Live.Broker
