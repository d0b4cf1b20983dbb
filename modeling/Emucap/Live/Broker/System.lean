import Emucap.Live.Broker.Registry

/-!
# Broker runs

The broker's threads share one registry and take its lock for one critical section at a time; a run is any order of
those sections. A request between its two locks, and a response between its route and its fence, wait in the state.
-/

namespace Emucap.Live.Broker

open Emucap.Lib

/-- A request between its two critical sections. -/
structure Pending where
  source : Conn
  front : Front
  line : Line

/-- A response between its route and its delivery. -/
structure Reply where
  raw : Line
  target : Conn
  session : Nat
  deriving DecidableEq

structure World where
  reg : Registry
  fronts : List (Conn × Front)
  requests : List Pending
  replies : List Reply
  closed : List Conn
  written : List (Conn × Line)
  delivered : List (Reply × Option Line)

inductive Act where
  | register (hello : Json)
  | unregister (name : String) (gen : Nat)
  | attach (conn : Conn) (av : Json)
  | detach (name : String) (registration session : Nat)
  | submit (conn : Conn) (line : Line)
  | hand (index : Nat)
  | take (name : String)
  | write (name : String) (ok : Bool)
  | respond (name : String) (registration : Nat) (line : Line)
  | deliver (index : Nat)

namespace World

def new (inst : Instance) : World := ⟨.new inst, [], [], [], [], [], []⟩

def front (w : World) (conn : Conn) : Option Front := OrdMap.find? conn w.fronts

def submit (w : World) (conn : Conn) (line : Line) : World :=
  match w.front conn with
  | none => w
  | some front =>
    if isPingLine line then w
    else match prepareRequest w.reg front (fenceOutgoing line front.session) with
      | .ok (some line) => { w with requests := w.requests ++ [⟨conn, front, line⟩] }
      | _ => w

def attach (w : World) (conn : Conn) (av : Json) : World :=
  if (w.front conn).isSome then w
  else match attachSession w.reg conn (.fromValue av) with
    | (.ok front, reg, old) =>
      { w with
        reg := reg
        fronts := OrdMap.insert conn front w.fronts
        closed := w.closed ++ old.toList }
    | (.error _, reg, old) => { w with reg := reg, closed := w.closed ++ old.toList }

def writer (w : World) (name : String) (f : Outbound → Outbound) : World :=
  match w.reg.find name with
  | none => w
  | some emu => { w with reg := w.reg.put name { emu with toEmu := f emu.toEmu } }

/-- A routed response is fenced with the session it was routed to, and written there. -/
def deliver (w : World) (reply : Reply) : World :=
  let out := fenceIncoming reply.raw reply.session
  { w with
    delivered := w.delivered ++ [(reply, out)]
    written := w.written ++ (out.filter fun _ => reply.target ∉ w.closed).toList.map (reply.target, ·) }

def step (w : World) : Act → World
  | .register hello => { w with reg := (Broker.register w.reg hello).2 }
  | .unregister name gen =>
    { w with
      reg := (Broker.unregister w.reg name gen).1
      written := w.written ++ (Broker.unregister w.reg name gen).2.toList }
  | .attach conn av => w.attach conn av
  | .detach name registration session =>
    { w with reg := detachSession w.reg name registration session }
  | .submit conn line => w.submit conn line
  | .hand index =>
    match w.requests[index]? with
    | none => w
    | some p =>
      { w with
        reg := admitRequest w.reg p.front p.source p.line
        requests := w.requests.eraseIdx index }
  | .take name => w.writer name Outbound.take
  | .write name ok => w.writer name (·.write ok)
  | .respond name registration line =>
    match responseTarget w.reg name registration with
    | none => w
    | some (conn, session) => { w with replies := w.replies ++ [⟨line, conn, session⟩] }
  | .deliver index =>
    match w.replies[index]? with
    | none => w
    | some reply => { w.deliver reply with replies := w.replies.eraseIdx index }

def run (w : World) (acts : List Act) : World := acts.foldl step w

/-- The states of a broker's runs. -/
inductive Reachable (inst : Instance) : World → Prop
  | new : Reachable inst (World.new inst)
  | step {w : World} (a : Act) : Reachable inst w → Reachable inst (w.step a)

theorem Reachable.run {inst : Instance} {w : World} (h : Reachable inst w) (acts : List Act) :
    Reachable inst (w.run acts) := by
  induction acts generalizing w with
  | nil => exact h
  | cons a acts ih => exact ih (h.step a)

end World

end Emucap.Live.Broker
