import Emucap.InputMovie
import Emucap.Lib.Hex
import Emucap.Lib.Stateful

/-!
# Stop packets between command replies

The exchanges, drains, steps and frame operations of `pc98_bridge/debug_runtime.rs`. The peer puts stale packets into
the client's buffer and answers each command with one packet; `answers` is no part of the source.
-/

namespace Emucap.Pc98Bridge

open Emucap.Lib

/-! ## The connection -/

structure Packet where
  /-- The number of the command it answers; a stale packet answers none. -/
  owner : Option ℕ
  text : String
  deriving DecidableEq

/-- The peer, the socket and the clock. -/
structure Setting where
  /-- the packets that arrive as an operation begins -/
  stale : ℕ → List String
  reply : ℕ → String
  /-- whether the deadline asked for has passed -/
  expired : ℕ → Bool
  /-- whether a call of the socket fails -/
  fails : ℕ → Bool
  /-- `MamePacing::parse` and `frame_budget_ms`, which read floating point numbers -/
  frameBudget : String → ℕ → Option ℕ

structure World where
  buffer : List Packet := []
  terminal : Bool := false
  controlFatal : Option String := none
  /-- the cell of the `ExchangeBudget` in use -/
  exhausted : Bool := false
  mameFeatures : Option (List String) := none
  tracing : Bool := false
  frozen : Bool := false
  events : List Packet := []
  sent : List String := []
  answers : List (ℕ × Packet) := []
  operations : ℕ := 0
  looks : ℕ := 0
  calls : ℕ := 0

inductive BridgeError where
  | emulator (message : String)
  | badParams (message : String)
  | gdb
  deriving DecidableEq

abbrev M := EStateM BridgeError World

def isStopPacket (resp : String) : Bool := resp.toList.head? = some 'S' || resp.toList.head? = some 'T'

def startsWith (text resp : String) : Bool := text.toList.isPrefixOf resp.toList

def commandExpectsStop (payload : String) : Bool :=
  payload = "c" || payload = "s" || payload = "?" || startsWith "C" payload || startsWith "S" payload ||
    ["vCont", "qEmucap,framestep", "qEmucap,runframes", "qEmucap,press", "qEmucap,pointermove"].any
      (startsWith · payload)

def poison {α : Type} : M α := do
  modify fun w => { w with terminal := true }
  throw .gdb

def Packet.isStop (packet : Packet) : Bool := isStopPacket packet.text

section client
variable (net : Setting)

def stalePackets (operation : ℕ) : List Packet := (net.stale operation).map (Packet.mk none)

def ownReply (command : ℕ) : Packet := ⟨some command, net.reply command⟩

def clockExpired : M Bool := do
  let w ← get
  set { w with looks := w.looks + 1 }
  pure (net.expired w.looks)

def callFails : M Bool := do
  let w ← get
  set { w with calls := w.calls + 1 }
  pure (net.fails w.calls)

def setTimeout : M Unit := do
  if ← callFails net then throw .gdb else pure ()

/-- A client whose call fails is poisoned, and so are the calls of a poisoned client refused. -/
def bounded : M Unit := do
  if (← callFails net) || (← get).terminal then poison else pure ()

def takePacket : M (Option Packet) := do
  let w ← get
  set { w with buffer := w.buffer.tail }
  pure w.buffer.head?

def recvNonblocking : M (Option Packet) := do
  bounded net
  takePacket

/-- With no packet to come the client waits until its time is up. -/
def awaitPacket : M Packet := do
  match ← takePacket with
  | some packet => pure packet
  | none => poison

def recvReply : M Packet := do
  bounded net
  awaitPacket

def sendWithTimeout (payload : String) : M Packet := do
  bounded net
  modify fun w => { w with
    sent := w.sent ++ [payload], buffer := w.buffer ++ [ownReply net w.sent.length] }
  awaitPacket

/-! ## The budget of an exchange -/

structure ExchangeBudget where
  packets : ℕ := 0
  bytes : ℕ := 0

def exhaust {α : Type} (message : String) : M α := do
  modify fun w => { w with exhausted := true }
  throw (.emulator message)

def remaining : M Unit := do
  if ← clockExpired net then exhaust "GDB demultiplexing deadline expired" else pure ()

def ExchangeBudget.skipped (budget : ExchangeBudget) (packet : String) : M ExchangeBudget := do
  remaining net
  if 1024 ≤ budget.packets ∨ 8 * 1024 * 1024 - budget.bytes < packet.utf8ByteSize then
    exhaust "GDB demultiplexing budget exceeded"
  else pure ⟨budget.packets + 1, budget.bytes + packet.utf8ByteSize⟩

/-- More rounds than packets are in a budget. -/
def rounds : ℕ := 1025

def outOfRounds {α : Type} : M α := exhaust "GDB demultiplexing budget exceeded"

/-- The part common to `exchange_command` and `drain_buffered_stops`. -/
def fenced {α : Type} (unverified : String) (x : M α) : M α := do
  match (← get).controlFatal with
  | some error => throw (.emulator error)
  | none => do
    modify fun w => { w with exhausted := false }
    let result ← attempt x
    modify fun w => if w.exhausted || w.terminal then { w with controlFatal := some unverified } else w
    fromExcept result

/-! ## Commands -/

/-- Its result `suppressed` is always `false`. -/
def noteStop (stop : Packet) : M Unit :=
  modify fun w => { w with frozen := true, events := w.events ++ [stop] }

def exchangeLoop (payload : String) (data : Bool) : ℕ → ExchangeBudget → Packet → M Packet
  | 0, _, _ => outOfRounds
  | n + 1, budget, resp =>
    if !commandExpectsStop payload && resp.isStop then do
      let budget ← budget.skipped net resp.text
      noteStop resp
      remaining net
      exchangeLoop payload data n budget (← recvReply net)
    else if data && resp.text = "OK" then do
      let budget ← budget.skipped net resp.text
      remaining net
      exchangeLoop payload data n budget (← recvReply net)
    else pure resp

def exchange (payload : String) (data : Bool) : M Packet := do
  remaining net
  let resp ← sendWithTimeout net payload
  exchangeLoop net payload data rounds {} resp

def exchangeCommand (payload : String) (data : Bool) : M Packet := do
  let resp ← fenced "GDB exchange is unverified" (exchange net payload data)
  modify fun w => { w with answers := w.answers ++ [(w.sent.length - 1, resp)] }
  pure resp

def luaPayload (name : String) (arg : Option String) : String :=
  match arg with
  | none => "qEmucap," ++ name
  | some arg => "qEmucap," ++ name ++ "," ++ String.ofList (encodeHex (utf8 arg))

def luaFailed {α : Type} (name resp : String) : M α :=
  throw (.emulator s!"MAME Lua command {name} failed: {resp}")

def luaDataCmdReply (name : String) (arg : Option String) : M String := do
  let resp ← exchangeCommand net (luaPayload name arg) true
  if resp.text = "" ∨ startsWith "E" resp.text then luaFailed name resp.text else pure resp.text

/-! ## Drains -/

def maxSyncAdvanceCount : ℕ := 5000

def maxSyncOperationMs : ℕ := 250000

def parseFeatures (raw : String) : List String :=
  ((raw.toList.splitOn ',').filter (· ≠ [])).map String.ofList

def probeFeatures : M (List String) := do
  let features ← attempt (luaDataCmdReply net "features" none)
  let features := (features.toOption.map parseFeatures).getD []
  modify fun w => { w with mameFeatures := some features }
  pure features

def mameFeatures : M (List String) := do
  match (← get).mameFeatures with
  | some features => pure features
  | none => probeFeatures net

end client

end Emucap.Pc98Bridge
