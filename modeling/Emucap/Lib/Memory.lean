import Emucap.Lib.ByteFields
import Emucap.Lib.Ensures

/-!
# Checked memory

Reading bytes and computing offsets as a machine does it, with a fault where a read is outside of the bytes or a number
leaves the 64 bits. A program that `Ensures` that it fails with `Rejects` only has no fault, whatever it is given.
-/

namespace Emucap.Lib

/-- Why a checked program fails: for a reason of its own, or with a fault. -/
inductive Failure (ρ : Type) where
  | rejected (reason : ρ)
  | outside
  | wrapped
  /-- a loop was not given enough rounds -/
  | unfinished
  deriving DecidableEq

variable {ρ α : Type}

abbrev CheckedRun (ρ : Type) := Except (Failure ρ)

def Rejects (e : Failure ρ) : Prop := ∃ reason, e = .rejected reason

def reject (reason : ρ) : Failure ρ := .rejected reason

theorem rejects_reject (reason : ρ) : Rejects (reject reason) := ⟨reason, rfl⟩

/-- `count` bytes at `offset`. -/
def slice (bytes : List UInt8) (offset count : ℕ) : CheckedRun ρ (List UInt8) :=
  if offset + count ≤ bytes.length then .ok (between bytes offset (offset + count)) else .error .outside

/-- The number that `count` bytes at `offset` spell, the lowest first. -/
def wordAt (bytes : List UInt8) (offset count : ℕ) : CheckedRun ρ ℕ :=
  if offset + count ≤ bytes.length then .ok (field bytes offset count) else .error .outside

def plus (a b : ℕ) : CheckedRun ρ ℕ := if a + b < 2 ^ 64 then .ok (a + b) else .error .wrapped

def minus (a b : ℕ) : CheckedRun ρ ℕ := if b ≤ a then .ok (a - b) else .error .wrapped

def times (a b : ℕ) : CheckedRun ρ ℕ := if a * b < 2 ^ 64 then .ok (a * b) else .error .wrapped

section values
variable {bytes : List UInt8} {offset count a b : ℕ}

theorem slice_eq (h : offset + count ≤ bytes.length) :
    (slice bytes offset count : CheckedRun ρ _) = .ok (between bytes offset (offset + count)) := if_pos h

theorem wordAt_eq (h : offset + count ≤ bytes.length) :
    (wordAt bytes offset count : CheckedRun ρ _) = .ok (field bytes offset count) := if_pos h

theorem plus_eq (h : a + b < 2 ^ 64) : (plus a b : CheckedRun ρ _) = .ok (a + b) := if_pos h

theorem minus_eq (h : b ≤ a) : (minus a b : CheckedRun ρ _) = .ok (a - b) := if_pos h

theorem times_eq (h : a * b < 2 ^ 64) : (times a b : CheckedRun ρ _) = .ok (a * b) := if_pos h

theorem require_bind_of {β : Type} {c : Prop} [Decidable c] {e : Failure ρ} {f : Unit → CheckedRun ρ β} (h : c) :
    (require c e >>= f) = f () := by
  rw [require, if_pos h]
  rfl

end values

end Emucap.Lib
