import Emucap.Lib.Sha256
import Emucap.Lib.Text

/-!
# Front authentication of the native adapters

`emucap_front_auth.h`: SHA-256 with a block buffer, HMAC over length-prefixed fields, and the exchange that
proves a native emulator to the front it connects to. A `std::string_view` is a list of bytes, a
`std::array` one of its length; `std::size_t` and `std::uint64_t` have 64 bits.
-/

namespace Emucap.Adapters.FrontAuth

open Emucap.Lib

abbrev Word := BitVec 32

def kChallengeSize : ℕ := 25
def kProducerProofSize : ℕ := 88
def kDirectionalProofSize : ℕ := 39
def kListenerOkSize : ℕ := 7
def kLaunchIdSize : ℕ := 33
def kNonceSize : ℕ := 16
def kProofSize : ℕ := 32

def toByte {w : ℕ} (x : BitVec w) : UInt8 := UInt8.ofBitVec (x.setWidth 8)

/-! ## SHA-256 -/

def rotateRight (value : Word) (count : ℕ) : Word := value >>> count ||| value <<< (32 - count)

def constants : List Word :=
  [0x428a2f98, 0x71374491, 0xb5c0fbcf, 0xe9b5dba5, 0x3956c25b,
   0x59f111f1, 0x923f82a4, 0xab1c5ed5, 0xd807aa98, 0x12835b01,
   0x243185be, 0x550c7dc3, 0x72be5d74, 0x80deb1fe, 0x9bdc06a7,
   0xc19bf174, 0xe49b69c1, 0xefbe4786, 0x0fc19dc6, 0x240ca1cc,
   0x2de92c6f, 0x4a7484aa, 0x5cb0a9dc, 0x76f988da, 0x983e5152,
   0xa831c66d, 0xb00327c8, 0xbf597fc7, 0xc6e00bf3, 0xd5a79147,
   0x06ca6351, 0x14292967, 0x27b70a85, 0x2e1b2138, 0x4d2c6dfc,
   0x53380d13, 0x650a7354, 0x766a0abb, 0x81c2c92e, 0x92722c85,
   0xa2bfe8a1, 0xa81a664b, 0xc24b8b70, 0xc76c51a3, 0xd192e819,
   0xd6990624, 0xf40e3585, 0x106aa070, 0x19a4c116, 0x1e376c08,
   0x2748774c, 0x34b0bcb5, 0x391c0cb3, 0x4ed8aa4a, 0x5b9cca4f,
   0x682e6ff3, 0x748f82ee, 0x78a5636f, 0x84c87814, 0x8cc70208,
   0x90befffa, 0xa4506ceb, 0xbef9a3f7, 0xc67178f2]

/-- `words[index]` of the block, for the first sixteen. -/
def loadWord (block : List UInt8) (index : ℕ) : Word :=
  let byte (i : ℕ) : Word := (block.getD i 0).toBitVec.setWidth 32
  byte (index * 4) <<< 24 ||| byte (index * 4 + 1) <<< 16 ||| byte (index * 4 + 2) <<< 8 ||| byte (index * 4 + 3)

/-- `words[index]` from the earlier ones. -/
def mixWord (words : List Word) (index : ℕ) : Word :=
  let at' (i : ℕ) : Word := words.getD i 0
  let s0 := rotateRight (at' (index - 15)) 7 ^^^ rotateRight (at' (index - 15)) 18 ^^^ at' (index - 15) >>> 3
  let s1 := rotateRight (at' (index - 2)) 17 ^^^ rotateRight (at' (index - 2)) 19 ^^^ at' (index - 2) >>> 10
  at' (index - 16) + s0 + at' (index - 7) + s1

def loadWords (block : List UInt8) : List Word :=
  (List.range 16).foldl (fun words index => words.set index (loadWord block index)) (List.replicate 64 0)

def mixWords (words : List Word) : List Word :=
  (List.range' 16 48).foldl (fun words index => words.set index (mixWord words index)) words

/-- The local variables of `Transform`. -/
structure Locals where
  a : Word
  b : Word
  c : Word
  d : Word
  e : Word
  f : Word
  g : Word
  h : Word

def Locals.round (v : Locals) (constant word : Word) : Locals :=
  let sum1 := rotateRight v.e 6 ^^^ rotateRight v.e 11 ^^^ rotateRight v.e 25
  let choose := (v.e &&& v.f) ^^^ (~~~v.e &&& v.g)
  let first := v.h + sum1 + choose + constant + word
  let sum0 := rotateRight v.a 2 ^^^ rotateRight v.a 13 ^^^ rotateRight v.a 22
  let majority := (v.a &&& v.b) ^^^ (v.a &&& v.c) ^^^ (v.b &&& v.c)
  let second := sum0 + majority
  ⟨first + second, v.a, v.b, v.c, v.d + first, v.e, v.f, v.g⟩

def transform (state : Vector Word 8) (block : List UInt8) : Vector Word 8 :=
  let words := mixWords (loadWords block)
  let v : Locals := ⟨state[0], state[1], state[2], state[3], state[4], state[5], state[6], state[7]⟩
  let v := (List.range 64).foldl (fun v index => v.round (constants.getD index 0) (words.getD index 0)) v
  #v[state[0] + v.a, state[1] + v.b, state[2] + v.c, state[3] + v.d, state[4] + v.e, state[5] + v.f,
    state[6] + v.g, state[7] + v.h]

/-- The state as the working variables of the hash. -/
def varsOf (state : Vector Word 8) : Lib.Sha256.Vars :=
  ⟨state[0], state[1], state[2], state[3], state[4], state[5], state[6], state[7]⟩

/-- The class `Sha256` between two calls. -/
structure Sha256 where
  state : Vector Word 8
  block : List UInt8
  used : ℕ
  total : BitVec 64
  block_length : block.length = 64
  used_lt : used < 64

namespace Sha256

def new : Sha256 where
  state := #v[0x6a09e667, 0xbb67ae85, 0x3c6ef372, 0xa54ff53a, 0x510e527f, 0x9b05688c, 0x1f83d9ab, 0x5be0cd19]
  block := List.replicate 64 0
  used := 0
  total := 0
  block_length := List.length_replicate
  used_lt := by decide

def pass (hash : Sha256) (bytes : List UInt8) (h : hash.used + bytes.length ≤ 64) : Sha256 :=
  have hblock : (overwrite hash.block hash.used bytes).length = 64 :=
    (length_overwrite (hash.block_length.symm ▸ h)).trans hash.block_length
  if hfull : hash.used + bytes.length = 64 then
    { state := transform hash.state (overwrite hash.block hash.used bytes)
      block := overwrite hash.block hash.used bytes
      used := 0
      total := hash.total + BitVec.ofNat 64 bytes.length
      block_length := hblock
      used_lt := by decide }
  else
    { state := hash.state
      block := overwrite hash.block hash.used bytes
      used := hash.used + bytes.length
      total := hash.total + BitVec.ofNat 64 bytes.length
      block_length := hblock
      used_lt := by omega }

def take (hash : Sha256) (size : ℕ) : ℕ := if size < 64 - hash.used then size else 64 - hash.used

theorem length_take_le (hash : Sha256) (bytes : List UInt8) :
    hash.used + (bytes.take (hash.take bytes.length)).length ≤ 64 := by
  have hused := hash.used_lt
  rw [List.length_take, take]
  split_ifs <;> omega

def update (hash : Sha256) (bytes : List UInt8) : Sha256 :=
  if bytes = [] then hash
  else
    (hash.pass (bytes.take (hash.take bytes.length)) (hash.length_take_le bytes)).update
      (bytes.drop (hash.take bytes.length))
termination_by bytes.length
decreasing_by
  rename_i hne
  have hpos := List.length_pos_iff.mpr hne
  have hused := hash.used_lt
  rw [List.length_drop, take]
  split_ifs <;> omega

def finish (hash : Sha256) : List UInt8 :=
  let bits := hash.total * 8
  let block := hash.block.set hash.used 0x80
  let used := hash.used + 1
  let (state, block, used) :=
    if used > 56 then
      let block := overwrite block used (List.replicate (64 - used) 0)
      (transform hash.state block, block, 0)
    else (hash.state, block, used)
  let block := overwrite block used (List.replicate (56 - used) 0)
  let block := (List.range 8).foldl (fun block index => block.set (63 - index) (toByte (bits >>> (index * 8)))) block
  let state := transform state block
  state.toList.flatMap fun (word : Word) => (List.range 4).map fun byte => toByte (word >>> (24 - byte * 8))

end Sha256

/-! ## HMAC -/

/-- The array `length` of `AppendField`. -/
def lengthArray (size : ℕ) : List UInt8 :=
  ((List.range 8).reverse.foldl (fun (length, value) index => (length.set index (toByte value), value >>> 8))
    (List.replicate 8 0, BitVec.ofNat 64 size)).1

def appendField (hash : Sha256) (field : List UInt8) : Sha256 :=
  (hash.update (lengthArray field.length)).update field

def hmac (key : List UInt8) (fields : List (List UInt8)) : List UInt8 :=
  let keyBlock :=
    if key.length > 64 then overwrite (List.replicate 64 0) 0 (Sha256.new.update key).finish
    else overwrite (List.replicate 64 0) 0 key
  let innerPad := keyBlock.map (· ^^^ 0x36)
  let outerPad := keyBlock.map (· ^^^ 0x5c)
  let inner := fields.foldl appendField (Sha256.new.update innerPad)
  ((Sha256.new.update outerPad).update inner.finish).finish

def equal (left right : List UInt8) (size : ℕ) : Bool :=
  (List.range size).foldl (fun difference index => difference ||| (left.getD index 0 ^^^ right.getD index 0)) 0 == 0

/-! ## Keys, identities and headers -/

def ulidChar (value : UInt8) : Bool :=
  (value ≥ 0x30 && value ≤ 0x39) || (value ≥ 0x61 && value ≤ 0x68) || value == 0x6a || value == 0x6b ||
    value == 0x6d || value == 0x6e || (value ≥ 0x70 && value ≤ 0x74) || (value ≥ 0x76 && value ≤ 0x7a)

def validLaunchId (launchId : List UInt8) : Bool :=
  if launchId.length ≠ kLaunchIdSize ∨ launchId.take 7 ≠ utf8 "launch-" then false
  else (launchId.drop 7).all ulidChar

def validHex (value : List UInt8) : Bool :=
  if value.length ≠ 64 then false
  else value.all fun byte =>
    (byte ≥ 0x30 && byte ≤ 0x39) || (byte ≥ 0x61 && byte ≤ 0x66) || (byte ≥ 0x41 && byte ≤ 0x46)

def boundary (key : List UInt8) : UInt8 :=
  let direct := utf8 "front-direct-"
  let broker := utf8 "front-broker-"
  if key.take direct.length = direct ∧ validHex (key.drop direct.length) then 1
  else if key.take broker.length = broker ∧ validHex (key.drop broker.length) then 2
  else 0

def header (bytes : List UInt8) (type boundary : UInt8) : Bool :=
  bytes.take 4 == utf8 "ECFA" && bytes.getD 4 0 == 1 && bytes.getD 5 0 == type && bytes.getD 6 0 == boundary

def setHeader (bytes : List UInt8) (type boundary : UInt8) : List UInt8 :=
  (((overwrite bytes 0 (utf8 "ECFA")).set 4 1).set 5 type).set 6 boundary

/-! ## The exchange -/

/-- The template `Authenticate`, over what its two function arguments do. -/
def authenticate {m : Type → Type} [Monad m] (frontKey launchId : List UInt8) (port : UInt16)
    (readExact : ℕ → m (Option (List UInt8))) (writeAll : List UInt8 → m Bool) : m Bool := do
  let boundary := boundary frontKey
  if boundary = 0 ∨ ¬ validLaunchId launchId then pure false
  else match ← readExact kChallengeSize with
  | none => pure false
  | some challenge =>
    if ¬ header challenge 1 boundary ∨ challenge.getD 7 0 ≠ (port >>> 8).toUInt8 ∨
        challenge.getD 8 0 ≠ port.toUInt8 then pure false
    else
      let nonceDigest := hmac frontKey [utf8 "emucap-producer-front-nonce-v1", challenge]
      let producerNonce := nonceDigest.take kNonceSize
      let transcript := challenge ++ launchId ++ producerNonce
      let producerProof := hmac frontKey [utf8 "emucap-producer-front-auth-v1", utf8 "producer", transcript]
      let producer := setHeader (List.replicate kProducerProofSize 0) 2 boundary
      let producer := overwrite producer 7 launchId
      let producer := overwrite producer (7 + kLaunchIdSize) producerNonce
      let producer := overwrite producer (7 + kLaunchIdSize + kNonceSize) producerProof
      if !(← writeAll producer) then pure false
      else match ← readExact kDirectionalProofSize with
      | none => pure false
      | some listener =>
        if ¬ header listener 3 boundary then pure false
        else
          let expectedListener :=
            hmac frontKey [utf8 "emucap-producer-front-auth-v1", utf8 "listener", transcript]
          if ¬ equal (listener.drop 7) expectedListener expectedListener.length then pure false
          else
            let commitProof := hmac frontKey [utf8 "emucap-producer-front-auth-v1", utf8 "commit", transcript]
            let commit := setHeader (List.replicate kDirectionalProofSize 0) 4 boundary
            let commit := overwrite commit 7 commitProof
            if !(← writeAll commit) then pure false
            else match ← readExact kListenerOkSize with
            | none => pure false
            | some ok => pure (header ok 5 boundary)

end Emucap.Adapters.FrontAuth
