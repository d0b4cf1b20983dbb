import Emucap.Lib.Blocks

/-!
# SHA-256

The hash function of FIPS 180-4 on byte strings: the padded message is cut into blocks of 64 bytes, every
block is expanded to 64 words, and 64 rounds mix them into the eight words of the hash value.
-/

namespace Emucap.Lib.Sha256

abbrev Word := BitVec 32

/-- The eight words of a hash value, and the eight working variables of the rounds. -/
structure Vars where
  a : Word
  b : Word
  c : Word
  d : Word
  e : Word
  f : Word
  g : Word
  h : Word
  deriving DecidableEq

/-! ## Functions and constants -/

def choose (x y z : Word) : Word := (x &&& y) ^^^ (~~~x &&& z)

def majority (x y z : Word) : Word := (x &&& y) ^^^ (x &&& z) ^^^ (y &&& z)

def bigSigma0 (x : Word) : Word := x.rotateRight 2 ^^^ x.rotateRight 13 ^^^ x.rotateRight 22

def bigSigma1 (x : Word) : Word := x.rotateRight 6 ^^^ x.rotateRight 11 ^^^ x.rotateRight 25

def smallSigma0 (x : Word) : Word := x.rotateRight 7 ^^^ x.rotateRight 18 ^^^ x >>> 3

def smallSigma1 (x : Word) : Word := x.rotateRight 17 ^^^ x.rotateRight 19 ^^^ x >>> 10

/-- The first 32 bits of the fractional parts of the cube roots of the first 64 primes. -/
def constants : List Word :=
  [0x428a2f98, 0x71374491, 0xb5c0fbcf, 0xe9b5dba5, 0x3956c25b, 0x59f111f1, 0x923f82a4, 0xab1c5ed5,
   0xd807aa98, 0x12835b01, 0x243185be, 0x550c7dc3, 0x72be5d74, 0x80deb1fe, 0x9bdc06a7, 0xc19bf174,
   0xe49b69c1, 0xefbe4786, 0x0fc19dc6, 0x240ca1cc, 0x2de92c6f, 0x4a7484aa, 0x5cb0a9dc, 0x76f988da,
   0x983e5152, 0xa831c66d, 0xb00327c8, 0xbf597fc7, 0xc6e00bf3, 0xd5a79147, 0x06ca6351, 0x14292967,
   0x27b70a85, 0x2e1b2138, 0x4d2c6dfc, 0x53380d13, 0x650a7354, 0x766a0abb, 0x81c2c92e, 0x92722c85,
   0xa2bfe8a1, 0xa81a664b, 0xc24b8b70, 0xc76c51a3, 0xd192e819, 0xd6990624, 0xf40e3585, 0x106aa070,
   0x19a4c116, 0x1e376c08, 0x2748774c, 0x34b0bcb5, 0x391c0cb3, 0x4ed8aa4a, 0x5b9cca4f, 0x682e6ff3,
   0x748f82ee, 0x78a5636f, 0x84c87814, 0x8cc70208, 0x90befffa, 0xa4506ceb, 0xbef9a3f7, 0xc67178f2]

/-- The first 32 bits of the fractional parts of the square roots of the first eight primes. -/
def initial : Vars :=
  ⟨0x6a09e667, 0xbb67ae85, 0x3c6ef372, 0xa54ff53a, 0x510e527f, 0x9b05688c, 0x1f83d9ab, 0x5be0cd19⟩

/-! ## One block -/

def word (b₀ b₁ b₂ b₃ : UInt8) : Word := b₀.toBitVec ++ b₁.toBitVec ++ b₂.toBitVec ++ b₃.toBitVec

def blockWords : List UInt8 → List Word
  | b₀ :: b₁ :: b₂ :: b₃ :: rest => word b₀ b₁ b₂ b₃ :: blockWords rest
  | _ => []

/-- The next word of the message schedule, from the words before it. -/
def scheduled (ws : List Word) : Word :=
  let t := ws.length
  smallSigma1 (ws.getD (t - 2) 0) + ws.getD (t - 7) 0 + smallSigma0 (ws.getD (t - 15) 0) + ws.getD (t - 16) 0

/-- The message schedule, extended by `n` words. -/
def extend : ℕ → List Word → List Word
  | 0, ws => ws
  | n + 1, ws => extend n (ws ++ [scheduled ws])

def schedule (block : List UInt8) : List Word := extend 48 (blockWords block)

def round (v : Vars) (k w : Word) : Vars :=
  let t₁ := v.h + bigSigma1 v.e + choose v.e v.f v.g + k + w
  let t₂ := bigSigma0 v.a + majority v.a v.b v.c
  ⟨t₁ + t₂, v.a, v.b, v.c, v.d + t₁, v.e, v.f, v.g⟩

def compress (v : Vars) (block : List UInt8) : Vars :=
  let r := (constants.zip (schedule block)).foldl (fun v kw => round v kw.1 kw.2) v
  ⟨v.a + r.a, v.b + r.b, v.c + r.c, v.d + r.d, v.e + r.e, v.f + r.f, v.g + r.g, v.h + r.h⟩

/-! ## The message -/

/-- The bytes of a bit string of `8 * n` bits, the most significant first. -/
def bigEndian (n : ℕ) {w : ℕ} (x : BitVec w) : List UInt8 :=
  (List.range n).map fun i => UInt8.ofBitVec (x.extractLsb' (8 * (n - 1 - i)) 8)

/-- The number of zero bytes after the first byte of the padding. -/
def zeros (length : ℕ) : ℕ := (119 - length % 64) % 64

def padding (length : ℕ) : List UInt8 :=
  [0x80] ++ List.replicate (zeros length) 0 ++ bigEndian 8 (BitVec.ofNat 64 (8 * length))

def digest (v : Vars) : List UInt8 :=
  [v.a, v.b, v.c, v.d, v.e, v.f, v.g, v.h].flatMap (bigEndian 4)

def sha256 (message : List UInt8) : List UInt8 :=
  digest (absorb 64 compress initial (message ++ padding message.length))

@[simp] theorem length_bigEndian (n : ℕ) {w : ℕ} (x : BitVec w) : (bigEndian n x).length = n := by
  simp [bigEndian]

@[simp] theorem length_sha256 (message : List UInt8) : (sha256 message).length = 32 := by
  simp [sha256, digest]

end Emucap.Lib.Sha256
