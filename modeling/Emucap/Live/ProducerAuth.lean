import Emucap.Lib.Sha256
import Emucap.Lib.Socket
import Emucap.Lib.Text
import Mathlib.Data.Nat.Bitwise

/-!
# Producer authentication

The producer's half of the mutual authentication of `live/producer_auth.rs`. A `&str` is its UTF-8 bytes:
the code looks at nothing else of it. `Sha256` of the `sha2` crate keeps what it was given and hashes it
at the end. The deadline is part of the socket, where a call that is out of time fails.
-/

namespace Emucap.Live.ProducerAuth

open Emucap.Lib

inductive Boundary where
  | direct
  | brokerProducer
  deriving DecidableEq

namespace Boundary

def wireId : Boundary → UInt8
  | direct => 1
  | brokerProducer => 2

def keyPrefix : Boundary → List UInt8
  | direct => utf8 "front-direct-"
  | brokerProducer => utf8 "front-broker-"

def fromFrontKey (key : List UInt8) : Option Boundary :=
  [direct, brokerProducer].find? fun boundary => boundary.keyPrefix.isPrefixOf key

end Boundary

inductive IoError where
  | invalidInput (message : String)
  | invalidData (message : String)
  /-- A read that came to the end of the stream, or a call on it that failed. -/
  | stream
  deriving DecidableEq

/-! ## Sizes and record types -/

def magic : List UInt8 := utf8 "ECFA"
def version : UInt8 := 1
def listenerChallenge : UInt8 := 1
def producerProof : UInt8 := 2
def listenerProof : UInt8 := 3
def producerCommit : UInt8 := 4
def listenerOk : UInt8 := 5
def nonceSize : ℕ := 16
def proofSize : ℕ := 32
def launchIdSize : ℕ := 33
def frontKeyHexSize : ℕ := proofSize * 2
def challengeSize : ℕ := 4 + 1 + 1 + 1 + 2 + nonceSize
def producerProofSize : ℕ := 4 + 1 + 1 + 1 + launchIdSize + nonceSize + proofSize
def directionalProofSize : ℕ := 4 + 1 + 1 + 1 + proofSize
def listenerOkSize : ℕ := 4 + 1 + 1 + 1

/-! ## Keys and identities -/

def ulidByte (b : UInt8) : Bool :=
  (0x30 ≤ b && b ≤ 0x39) || (0x61 ≤ b && b ≤ 0x68) || b == 0x6a || b == 0x6b || b == 0x6d || b == 0x6e ||
    (0x70 ≤ b && b ≤ 0x74) || (0x76 ≤ b && b ≤ 0x7a)

def validLaunchId (launchId : List UInt8) : Bool :=
  match (utf8 "launch-").isPrefixOf? launchId with
  | none => false
  | some ulid => launchId.length == launchIdSize && ulid.length == 26 && ulid.all ulidByte

def isAsciiHexdigit (b : UInt8) : Bool :=
  (0x30 ≤ b && b ≤ 0x39) || (0x61 ≤ b && b ≤ 0x66) || (0x41 ≤ b && b ≤ 0x46)

def validateFrontKey (key : List UInt8) (boundary : Boundary) : Except IoError Unit :=
  match boundary.keyPrefix.isPrefixOf? key with
  | none => .error (.invalidInput "producer authentication key has the wrong boundary")
  | some hex =>
    if hex.length ≠ frontKeyHexSize ∨ ¬ hex.all isAsciiHexdigit then
      .error (.invalidInput "producer authentication key has an invalid format")
    else .ok ()

/-! ## Keyed hashes -/

/-- `sha2::Sha256`, by what it was updated with. -/
structure Sha256 where
  bytes : List UInt8

namespace Sha256

def new : Sha256 := ⟨[]⟩

def update (hash : Sha256) (bytes : List UInt8) : Sha256 := ⟨hash.bytes ++ bytes⟩

def finalize (hash : Sha256) : List UInt8 := Lib.Sha256.sha256 hash.bytes

end Sha256

def lengthBytes (n : ℕ) : List UInt8 := Lib.Sha256.bigEndian 8 (BitVec.ofNat 64 n)

def hmacSha256 (key : List UInt8) (fields : List (List UInt8)) : List UInt8 :=
  let zeros := List.replicate 64 0
  let keyBlock :=
    if key.length > 64 then overwrite zeros 0 (Lib.Sha256.sha256 key) else overwrite zeros 0 key
  let innerPad := (List.replicate 64 0x36).zipWith (· ^^^ ·) keyBlock
  let outerPad := (List.replicate 64 0x5c).zipWith (· ^^^ ·) keyBlock
  let inner := fields.foldl (fun inner field => (inner.update (lengthBytes field.length)).update field)
    (Sha256.new.update innerPad)
  ((Sha256.new.update outerPad).update inner.finalize).finalize

/-- All bytes are compared, whatever the first ones are. -/
def proofMatches (expected presented : List UInt8) : Bool :=
  let difference := (expected.zipIdx).foldl
    (fun difference (byte, index) => difference ||| (byte ^^^ presented.getD index 0).toNat)
    (expected.length ^^^ presented.length)
  difference == 0

theorem foldl_or_eq_zero {xs ys : List UInt8} :
    ∀ {start d : ℕ}, (xs.zipIdx start).foldl
      (fun difference (byte, index) => difference ||| (byte ^^^ ys.getD index 0).toNat) d = 0 ↔
        d = 0 ∧ ∀ i < xs.length, xs.getD i 0 = ys.getD (start + i) 0 := by
  induction xs with
  | nil => simp
  | cons x xs ih =>
    intro start d
    have hbyte : (x ^^^ ys.getD start 0).toNat = 0 ↔ x = ys.getD start 0 := by
      rw [← UInt8.toNat_zero, UInt8.toNat_inj, UInt8.xor_eq_zero_iff]
    rw [List.zipIdx_cons, List.foldl_cons, ih, Nat.or_eq_zero_iff, hbyte, and_assoc]
    refine and_congr_right fun _ => ⟨?_, ?_⟩
    · rintro ⟨hx, hxs⟩ i hi
      cases i with
      | zero => exact hx
      | succ i =>
        rw [List.getD_cons_succ, hxs i (Nat.lt_of_succ_lt_succ hi)]
        congr 1
        omega
    · intro h
      refine ⟨h 0 (Nat.succ_pos _), fun i hi => ?_⟩
      have hi' := h (i + 1) (Nat.succ_lt_succ hi)
      rw [List.getD_cons_succ] at hi'
      rw [hi']
      congr 1
      omega

theorem proofMatches_iff (expected presented : List UInt8) :
    proofMatches expected presented = true ↔ expected = presented := by
  rw [proofMatches, beq_iff_eq, foldl_or_eq_zero, Nat.xor_eq_zero_iff]
  constructor
  · rintro ⟨hlen, hbytes⟩
    refine List.ext_getElem hlen fun i hi hi' => ?_
    have hbyte := hbytes i hi
    rwa [Nat.zero_add, List.getD_eq_getElem _ _ hi, List.getD_eq_getElem _ _ hi'] at hbyte
  · rintro rfl
    exact ⟨rfl, fun i _ => by rw [Nat.zero_add]⟩

/-! ## Records -/

def header (recordType : UInt8) (boundary : Boundary) : List UInt8 :=
  magic ++ [version, recordType, boundary.wireId]

def headerMatches (bytes : List UInt8) (recordType : UInt8) (boundary : Boundary) : Bool :=
  decide (7 ≤ bytes.length) && bytes.take 7 == header recordType boundary

def producerNonce (frontKey challenge : List UInt8) : List UInt8 :=
  (hmacSha256 frontKey [utf8 "emucap-producer-front-nonce-v1", challenge]).take nonceSize

def transcript (challenge launchId nonce : List UInt8) : List UInt8 := challenge ++ launchId ++ nonce

def directionalProof (frontKey direction transcript : List UInt8) : List UInt8 :=
  hmacSha256 frontKey [utf8 "emucap-producer-front-auth-v1", direction, transcript]

/-- The record and the transcript it proves. -/
def producerProofRecord (challenge frontKey : List UInt8) (boundary : Boundary) (launchId : List UInt8) :
    List UInt8 × List UInt8 :=
  let nonce := producerNonce frontKey challenge
  let transcript := transcript challenge launchId nonce
  let proof := directionalProof frontKey (utf8 "producer") transcript
  let record := overwrite (List.replicate producerProofSize 0) 0 (header producerProof boundary)
  let record := overwrite record 7 launchId
  let record := overwrite record (7 + launchIdSize) nonce
  (overwrite record (7 + launchIdSize + nonceSize) proof, transcript)

structure AuthenticatedTranscript where
  boundary : Boundary
  launchId : List UInt8
  frontKey : List UInt8
  transcript : List UInt8

def proofRecord (recordType : UInt8) (auth : AuthenticatedTranscript) (direction : List UInt8) : List UInt8 :=
  let record := overwrite (List.replicate directionalProofSize 0) 0 (header recordType auth.boundary)
  overwrite record 7 (directionalProof auth.frontKey direction auth.transcript)

def listenerOkRecord (boundary : Boundary) : List UInt8 := header listenerOk boundary

/-! ## The exchange -/

abbrev Io := ExceptT IoError (StateM Socket)

def readExactUntil (size : ℕ) : Io (List UInt8) := fun s =>
  match s.readExact size with
  | (some bytes, s) => (.ok bytes, s)
  | (none, s) => (.error .stream, s)

def writeAllUntil (bytes : List UInt8) : Io Unit := fun s =>
  match s.writeAll bytes with
  | (true, s) => (.ok (), s)
  | (false, s) => (.error .stream, s)

theorem bind_ok {α β : Type} {x : Io α} {f : α → Io β} {s s' : Socket} {a : α} (h : x s = (.ok a, s')) :
    (x >>= f) s = f a s' := by
  show (match x s with | (r, s') => ExceptT.bindCont f r s') = _
  rw [h]
  rfl

theorem bind_error {α β : Type} {x : Io α} {f : α → Io β} {s s' : Socket} {e : IoError} (h : x s = (.error e, s')) :
    (x >>= f) s = (.error e, s') := by
  show (match x s with | (r, s') => ExceptT.bindCont f r s') = _
  rw [h]
  rfl

def failIf (c : Prop) [Decidable c] (e : IoError) : Io Unit := if c then throw e else pure ()

theorem failIf_of_not {c : Prop} [Decidable c] {e : IoError} (h : ¬ c) (s : Socket) : failIf c e s = (.ok (), s) := by
  rw [failIf, if_neg h]
  rfl

def authenticateProducerStream (frontKey : List UInt8) (boundary : Boundary) (port : UInt16)
    (launchId : List UInt8) : Io Unit := do
  liftExcept (validateFrontKey frontKey boundary)
  failIf (¬ validLaunchId launchId)
    (.invalidInput "producer authentication requires a managed launch identity")
  let challenge ← readExactUntil challengeSize
  failIf (¬ headerMatches challenge listenerChallenge boundary ∨
      (challenge.drop 7).take 2 ≠ Lib.Sha256.bigEndian 2 port.toBitVec)
    (.invalidData "producer authentication challenge is invalid")
  let (producer, transcript) := producerProofRecord challenge frontKey boundary launchId
  writeAllUntil producer
  let listener ← readExactUntil directionalProofSize
  failIf (¬ headerMatches listener listenerProof boundary ∨
      ¬ proofMatches (directionalProof frontKey (utf8 "listener") transcript) (listener.drop 7))
    (.invalidData "producer authentication listener proof is invalid")
  let auth : AuthenticatedTranscript := ⟨boundary, launchId, frontKey, transcript⟩
  writeAllUntil (proofRecord producerCommit auth (utf8 "commit"))
  let ok ← readExactUntil listenerOkSize
  failIf (ok ≠ listenerOkRecord boundary) (.invalidData "producer authentication completion is invalid")
where
  liftExcept (r : Except IoError Unit) : Io Unit := ExceptT.mk (pure r)

end Emucap.Live.ProducerAuth
