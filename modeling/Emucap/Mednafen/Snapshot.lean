import Emucap.Mednafen.StateFile

/-!
# Snapshot containers

`EmucapSnapshot` of `emucap_snapshot.h`: a native state, and behind it a record of its history with four blocks, bound
to the content by an identity and to the bytes by their digest. The hash function is a parameter.
-/

namespace Emucap.Mednafen

open Emucap.Lib

/-- `std::array<std::uint8_t, 32>`. -/
abbrev Bytes32 := {bytes : List UInt8 // bytes.length = 32}

structure Blocks where
  raster : List UInt8
  filters : List UInt8
  completed : List UInt8
  activeFrame : List UInt8
  deriving DecidableEq

def Blocks.toList (blocks : Blocks) : List (List UInt8) :=
  [blocks.raster, blocks.filters, blocks.completed, blocks.activeFrame]

structure EmucapSnapshot where
  nativeSize : ℕ
  history : Bool
  blocks : Blocks
  deriving DecidableEq

namespace EmucapSnapshot

def maxBytes : ℕ := 512 * 1024 * 1024

def headerSize : ℕ := 72

def limits : List ℕ :=
  [256 * 1024 * 1024 + 128, 128 * 1024 * 1024 + 40, 128 * 1024 * 1024 + 48, 4 * 1024 * 1024 + 84]

def invalid : Failure String := reject "invalid snapshot history record"

def magic : List UInt8 := utf8 "ECHSTATE"

def checkSize (index size : ℕ) : Check Unit :=
  require (size ≤ limits.getD index 0 ∧ (index = 3 ∨ size ≠ 0)) invalid

def addSizes : (index : ℕ) → List (List UInt8) → (total : ℕ) → Check ℕ
  | _, [], total => .ok total
  | index, block :: blocks, total => do
    checkSize index block.length
    let room ← minus maxBytes total
    require (block.length ≤ room) invalid
    let total ← plus total block.length
    addSizes (index + 1) blocks total

def header (identity : Bytes32) (blocks : Blocks) : List UInt8 :=
  magic ++ identity.1 ++ blocks.toList.flatMap fun block => littleEndian 8 block.length

variable (sha256 : List UInt8 → Bytes32)

def sealed (bytes : List UInt8) : List UInt8 := bytes ++ (sha256 bytes).1

def encode (native : List UInt8) (identity : Bytes32) (blocks : Blocks) : Check (List UInt8) := do
  EmucapStateFile.validate native
  let total ← plus native.length headerSize
  let total ← plus total 32
  let _ ← addSizes 0 blocks.toList total
  return sealed sha256 (native ++ header identity blocks ++ blocks.toList.flatten)

/-- The lengths of the blocks from `index` on, as the header says them, and the end of the blocks. -/
def readLengths (bytes : List UInt8) (nativeSize last : ℕ) : (index count cursor : ℕ) → Check (List ℕ × ℕ)
  | _, 0, cursor => .ok ([], cursor)
  | index, count + 1, cursor => do
    let length ← wordAt bytes (← plus nativeSize (40 + index * 8)) 8
    checkSize index length
    let room ← minus last cursor
    require (length ≤ room) invalid
    let cursor ← plus cursor length
    let (lengths, cursor) ← readLengths bytes nativeSize last (index + 1) count cursor
    return (length :: lengths, cursor)

def readBlocks (bytes : List UInt8) : List ℕ → (cursor : ℕ) → Check (List (List UInt8))
  | [], _ => .ok []
  | length :: lengths, cursor => do
    let block ← slice bytes cursor length
    let cursor ← plus cursor length
    return block :: (← readBlocks bytes lengths cursor)

/-- The record behind the native state. -/
def decodeHistory (bytes : List UInt8) (nativeSize : ℕ) (identity : Bytes32) : Check EmucapSnapshot := do
  let rest ← minus bytes.length nativeSize
  require (headerSize + 32 ≤ rest) invalid
  let found ← slice bytes nativeSize 8
  require (found = magic) invalid
  let found ← slice bytes (← plus nativeSize 8) 32
  require (found = identity.1) invalid
  let last ← minus bytes.length 32
  let text ← slice bytes 0 last
  let digest ← slice bytes last 32
  require (digest = (sha256 text).1) (reject "snapshot history digest differs")
  let first ← plus nativeSize headerSize
  let (lengths, cursor) ← readLengths bytes nativeSize last 0 4 first
  require (cursor = last) invalid
  match ← readBlocks bytes lengths first with
  | [raster, filters, completed, activeFrame] => .ok ⟨nativeSize, true, ⟨raster, filters, completed, activeFrame⟩⟩
  | _ => .error .unfinished

def decode (bytes : List UInt8) (identity : Bytes32) : Check EmucapSnapshot := do
  require (32 ≤ bytes.length ∧ bytes.length ≤ maxBytes) invalid
  let declared ← wordAt bytes 20 4
  let nativeSize := declared % 2 ^ 31
  require (nativeSize ≤ bytes.length) invalid
  EmucapStateFile.validate (bytes.take nativeSize)
  if bytes.length = nativeSize then .ok ⟨nativeSize, false, ⟨[], [], [], []⟩⟩
  else decodeHistory sha256 bytes nativeSize identity

end EmucapSnapshot

end Emucap.Mednafen
