import Emucap.Lib.Dialogue
import Emucap.Live.Reconnect.Owned

/-!
# Producer sessions and what they log

The other idle loop of a producer is `serve_one_cancellable` (`live/reconnect.rs`), which has no route. A `Session`
keeps a log of the lines consumed and the responses written, each under its position.
-/

namespace Emucap.Live.Reconnect

open Emucap.Lib

inductive Kind where
  /-- `owned::run` -/
  | owned (admission : TemporalAdmission)
  /-- `serve_one_cancellable` -/
  | bridge (admission : Option TemporalAdmission)

namespace Producer

/-- A line read by `serve_one_cancellable` while nothing runs. The decoder's own text stands in the answer to a line it
refuses. -/
def bridgeReceive (admission : Option TemporalAdmission) (p : Producer) (c : Choice) (line : Line) : Producer :=
  if line.isBlank then p
  else match line.parse.bind Request.fromValue with
    | none => p.write c (errorResponse 0 "protocol_error" "malformed request")
    | some request =>
      match admission with
      | none => { p with mode := .serving request.id none }
      | some a =>
        if request.method = "cancel_operation" then p.write c (statusResponse request.id "not_active")
        else match a.admitKey request with
          | .error fault => p.write c (errorResponse request.id "bad_params" fault.text)
          | .ok none => { p with mode := .serving request.id none }
          | .ok (some key) =>
            match key.validate, c.readTimeout with
            | .error message, _ => p.fail (.invalidKey message)
            | .ok (), .error reason => p.fail (.outside reason)
            | .ok (), .ok () => { p with mode := .executing ⟨request.id, key, none, false, none, none⟩ }

def bridgeEnd (p : Producer) : Producer :=
  match p.mode with
  | .ended (.dependencyTerminal .requestRetired) =>
    p.terminal (.outside "backend reported a terminal transport state")
  | _ => p

end Producer

namespace Kind

def receive (k : Kind) (p : Producer) (c : Choice) (position : ℕ) (line : Line) : Producer :=
  match k with
  | .owned a => p.receive a c position line
  | .bridge admission => p.bridgeReceive admission c line

def idle (k : Kind) (p : Producer) (c : Choice) : Producer :=
  match c.probe with
  | some reason => p.terminal (.outside reason)
  | none =>
    match c.poll, p.unread with
    | .next, line :: unread =>
      k.receive { p with position := p.position + 1, unread := unread } c p.position line
    | .closed, _ => { p with mode := .ended .frontDisconnected }
    | .failed reason, _ => p.fail (.outside reason)
    | _, _ => p

def finish (k : Kind) (p : Producer) : Producer :=
  match k with
  | .owned _ => p
  | .bridge _ => p.bridgeEnd

def step (k : Kind) (p : Producer) (c : Choice) : Producer :=
  match p.mode with
  | .idle => k.idle p c
  | .serving id writeError => k.finish (p.serve c id writeError)
  | .executing x => k.finish (p.execute c x)
  | .ended _ => p

end Kind

/-! ## The log -/

abbrev Entry := Dialogue.Entry Line Response

def attempt (entry : Entry) (position : ℕ) : Except String Unit → List Entry
  | .ok () => [entry]
  | .error _ => [.lost position]

/-- The response that a line gets from the idle loop if the write goes through. -/
def Kind.reply (k : Kind) (p : Producer) (c : Choice) (position : ℕ) (line : Line) : List Response :=
  (k.receive p { c with write := .ok () } position line).written.drop p.written.length

def Mode.isRunning : Mode → Bool
  | .serving _ _ | .executing _ => true
  | _ => false

def Kind.idleEntries (k : Kind) (p : Producer) (c : Choice) : List Entry :=
  match c.probe, c.poll, p.unread with
  | none, .next, line :: unread =>
    let taken := { p with position := p.position + 1, unread := unread }
    .consumed p.position line ::
      ((k.reply taken c p.position line).flatMap (fun r => attempt (.wrote p.position r) p.position c.write) ++
        if (k.receive taken c p.position line).mode.isRunning then [.started p.position] else [])
  | _, _, _ => []

def workingEntries (active : ℕ) (c : Choice) (x : Execution) : List Entry :=
  if x.transportError.isNone ∧ c.workingDue = true then
    attempt (.working active (statusResponse x.id "working")) active c.workingWrite
  else []

def controlEntries (active : ℕ) (p : Producer) (c : Choice) (x : Execution) : List Entry :=
  match c.poll, p.unread with
  | .next, line :: _ =>
    .consumed p.position line :: match x.control line, c.write with
      | (none, x), _ => workingEntries active c x
      | (some response, x), .ok () => .wrote p.position response :: workingEntries active c x
      | (some _, _), .error _ => [.lost p.position]
  | .closed, _ => [.broken]
  | .failed _, _ => [.broken]
  | _, _ => workingEntries active c x

def Kind.entries (k : Kind) (active : ℕ) (p : Producer) (c : Choice) : List Entry :=
  match p.mode with
  | .idle => k.idleEntries p c
  | .serving id none =>
    match c.worker with
    | .gone => []
    | .running => attempt (.working active (statusResponse id "working")) active c.write
    | .replied reply => attempt (.wrote active reply.response) active c.write
  | .serving _ (some _) => []
  | .executing x =>
    match c.worker with
    | .gone => []
    | .replied reply =>
      if x.transportError.isSome then [] else attempt (.wrote active reply.response) active c.write
    | .running => if x.transportError.isSome ∨ x.sessionEvent.isSome then [] else controlEntries active p c x
  | .ended _ => []

structure Session where
  producer : Producer
  /-- the position of the request that runs -/
  active : ℕ
  log : List Entry

namespace Session

def start (runtime : String) (direct : Attachment) (lines : List Line) : Session :=
  ⟨.new runtime direct lines, 0, []⟩

def step (k : Kind) (s : Session) (c : Choice) : Session where
  producer := k.step s.producer c
  active := match s.producer.mode with
    | .idle => s.producer.position
    | _ => s.active
  log := s.log ++ k.entries s.active s.producer c

def run (k : Kind) (s : Session) (choices : List Choice) : Session := choices.foldl (step k) s

end Session

end Emucap.Live.Reconnect
