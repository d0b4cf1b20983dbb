import Emucap.Lib.ByteFields
import Emucap.Lib.Ensures

/-!
# The directory of a state archive

`open_pc98_state_archive` (`pc98_bridge/support/state_archive.rs`) up to the metadata view of the last end record.
Indices and differences that the code does not check are modelled as steps that may panic.
-/

namespace Emucap.Pc98Bridge

open Emucap.Lib

def maxStateArchiveBytes : ℕ := 1024 * 1024 * 1024
def maxStateArchiveEntries : ℕ := 4104
def maxStateCentralDirectoryBytes : ℕ := 4 * 1024 * 1024

def eocdSignature : List UInt8 := [0x50, 0x4b, 0x05, 0x06]
def zip64LocatorSignature : List UInt8 := [0x50, 0x4b, 0x06, 0x07]
def centralDirectorySignature : List UInt8 := [0x50, 0x4b, 0x01, 0x02]
def centralDirectoryHeaderLen : ℕ := 46
def eocdLen : ℕ := 22
def maxCommentLen : ℕ := 2 ^ 16 - 1

inductive ArchiveError where
  | badParams (message : String)
  /-- An error of the file system or of the archive parser. -/
  | io
  | panicked
  deriving DecidableEq

abbrev ArchiveCheck := Except ArchiveError

def badParams (message : String) : ArchiveError := .badParams message

def slice (bytes : List UInt8) (first last : ℕ) : ArchiveCheck (List UInt8) := do
  require (first ≤ last ∧ last ≤ bytes.length) .panicked
  return between bytes first last

/-- `from_le_bytes` of the `width` bytes at `offset`. -/
def readField (bytes : List UInt8) (offset width : ℕ) : ArchiveCheck ℕ := do
  return ofLittleEndian (← slice bytes offset (offset + width))

/-- `bytes[first..last].copy_from_slice(source)`. -/
def copyFromSlice (bytes : List UInt8) (first last : ℕ) (source : List UInt8) : ArchiveCheck (List UInt8) := do
  require (first ≤ last ∧ last ≤ bytes.length ∧ source.length = last - first) .panicked
  return overwrite bytes first source

def subtract (a b : ℕ) : ArchiveCheck ℕ := orError .panicked (checkedSub a b)

def readAt (content : List UInt8) (offset n : ℕ) : ArchiveCheck (List UInt8) := do
  require (offset + n ≤ content.length) .io
  return between content offset (offset + n)

/-! ## The end record -/

def isEocd (tail : List UInt8) (offset : ℕ) : ArchiveCheck Bool := do
  if (← slice tail offset (offset + 4)) ≠ eocdSignature then return false
  let commentLen ← readField tail (offset + 20) 2
  return (checkedAdd offset (eocdLen + commentLen)).any (· = tail.length)

/-- The first of the offsets from `last` backwards that an end record begins at. -/
def findEocd (tail : List UInt8) : ℕ → ArchiveCheck (Option ℕ)
  | 0 => do return if ← isEocd tail 0 then some 0 else none
  | offset + 1 => do if ← isEocd tail (offset + 1) then return some (offset + 1) else findEocd tail offset

structure Eocd where
  offset : ℕ
  entries : ℕ
  centralDirectorySize : ℕ
  centralDirectoryOffset : ℕ
  deriving DecidableEq

def readEocd (content : List UInt8) : ArchiveCheck Eocd := do
  require (content.length ≤ maxStateArchiveBytes)
    (badParams s!"PC-98 state archive exceeds {maxStateArchiveBytes} bytes")
  require (eocdLen ≤ content.length) (badParams "PC-98 state archive has no ZIP end record")
  let tailLen := min content.length (eocdLen + maxCommentLen)
  let tailOffset ← subtract content.length tailLen
  let tail ← readAt content tailOffset tailLen
  let eocdRelative ← orError (badParams "PC-98 state archive has no bounded ZIP end record")
    (← findEocd tail (← subtract tailLen eocdLen))
  let eocd ← slice tail eocdRelative (eocdRelative + eocdLen)
  let disk ← readField eocd 4 2
  let centralDirectoryDisk ← readField eocd 6 2
  let entriesOnDisk ← readField eocd 8 2
  let entries ← readField eocd 10 2
  let centralDirectorySize ← readField eocd 12 4
  let centralDirectoryOffset ← readField eocd 16 4
  require (disk ≠ 2 ^ 16 - 1 ∧ centralDirectoryDisk ≠ 2 ^ 16 - 1 ∧ entriesOnDisk ≠ 2 ^ 16 - 1 ∧ entries ≠ 2 ^ 16 - 1 ∧
      centralDirectorySize ≠ 2 ^ 32 - 1 ∧ centralDirectoryOffset ≠ 2 ^ 32 - 1)
    (badParams "Zip64 PC-98 state archives are not supported")
  require (disk = 0 ∧ centralDirectoryDisk = 0 ∧ entriesOnDisk = entries)
    (badParams "multi-disk PC-98 state archives are not supported")
  require (entries ≤ maxStateArchiveEntries)
    (badParams s!"PC-98 state archive entry count exceeds {maxStateArchiveEntries}")
  require (centralDirectorySize ≤ maxStateCentralDirectoryBytes)
    (badParams s!"PC-98 state archive central directory exceeds {maxStateCentralDirectoryBytes} bytes")
  require (entries = 0 ↔ centralDirectorySize = 0)
    (badParams "PC-98 state archive has inconsistent central directory metadata")
  let offset ← orError .panicked (checkedAdd tailOffset eocdRelative)
  return ⟨offset, entries, centralDirectorySize, centralDirectoryOffset⟩

/-! ## The records -/

/-- Where the directory lies: what stands before the archive, and the directory from the start of the file. -/
structure Placement where
  archiveOffset : ℕ
  physicalDirectoryOffset : ℕ
  deriving DecidableEq

def place (content : List UInt8) (eocd : Eocd) : ArchiveCheck Placement := do
  let centralDirectoryEnd ← orError (badParams "PC-98 state archive central directory overflows")
    (checkedAdd eocd.centralDirectoryOffset eocd.centralDirectorySize)
  require (centralDirectoryEnd ≤ eocd.offset ∧ centralDirectoryEnd ≤ content.length)
    (badParams "PC-98 state archive central directory is out of bounds")
  let archiveOffset ← subtract eocd.offset centralDirectoryEnd
  let physicalDirectoryOffset ← orError (badParams "PC-98 state archive central directory overflows")
    (checkedAdd archiveOffset eocd.centralDirectoryOffset)
  return ⟨archiveOffset, physicalDirectoryOffset⟩

structure Walk where
  cursor : ℕ
  directory : List UInt8
  deriving DecidableEq

/-- The offset of a local header from the start of the file, where that lies before the directory. -/
def physicalLocalHeader (placement : Placement) (localHeaderOffset : ℕ) : Option ℕ :=
  ((checkedAdd placement.archiveOffset localHeaderOffset).filter (· < placement.physicalDirectoryOffset)).filter
    (· < 2 ^ 32)

def readEntry (placement : Placement) (walk : Walk) : ArchiveCheck Walk := do
  let headerEnd ← orError (badParams "PC-98 state archive central directory is truncated")
    ((checkedAdd walk.cursor centralDirectoryHeaderLen).filter (· ≤ walk.directory.length))
  let header ← slice walk.directory walk.cursor headerEnd
  let signature ← slice header 0 4
  require (signature = centralDirectorySignature)
    (badParams "PC-98 state archive central directory has an invalid entry")
  let compressedSize ← readField header 20 4
  let uncompressedSize ← readField header 24 4
  let flags ← readField header 8 2
  let compressionMethod ← readField header 10 2
  let nameLen ← readField header 28 2
  let extraLen ← readField header 30 2
  let commentLen ← readField header 32 2
  let diskStart ← readField header 34 2
  let localHeaderOffset ← readField header 42 4
  require (diskStart = 0) (badParams "multi-disk PC-98 state archives are not supported")
  require (compressedSize ≠ 2 ^ 32 - 1 ∧ uncompressedSize ≠ 2 ^ 32 - 1 ∧ localHeaderOffset ≠ 2 ^ 32 - 1)
    (badParams "Zip64 PC-98 state archives are not supported")
  require (extraLen = 0) (badParams "PC-98 state archive central directory extra fields are not supported")
  require (flags % 2 = 0 ∧ compressionMethod ≠ 99)
    (badParams "encrypted PC-98 state archive entries are not supported")
  let physical ← orError (badParams "PC-98 state archive local header offset is out of bounds")
    (physicalLocalHeader placement localHeaderOffset)
  let directory ← copyFromSlice walk.directory (walk.cursor + 42) (walk.cursor + 46) (littleEndian 4 physical)
  let cursor ← orError (badParams "PC-98 state archive central directory entry is truncated")
    ((checkedAdd headerEnd nameLen >>= fun last => checkedAdd last extraLen >>= fun last =>
      checkedAdd last commentLen).filter (· ≤ directory.length))
  return ⟨cursor, directory⟩

def readEntries (placement : Placement) : ℕ → Walk → ArchiveCheck Walk
  | 0, walk => .ok walk
  | entries + 1, walk => do readEntries placement entries (← readEntry placement walk)

/-! ## The view -/

/-- A record of the older format with wider numbers stands right before the end record. -/
def checkLocator (content : List UInt8) (eocdOffset : ℕ) : ArchiveCheck Unit :=
  if 20 ≤ eocdOffset then do
    let signature ← readAt content (eocdOffset - 20) 4
    require (signature ≠ zip64LocatorSignature) (badParams "Zip64 PC-98 state archives are not supported")
  else .ok ()

/-- The end record of the view, whose directory begins at its start. -/
def viewEnd (entries centralDirectorySize : ℕ) : List UInt8 :=
  eocdSignature ++ littleEndian 2 0 ++ littleEndian 2 0 ++ littleEndian 2 entries ++ littleEndian 2 entries ++
    littleEndian 4 centralDirectorySize ++ littleEndian 4 0 ++ littleEndian 2 0

/-- `open_pc98_state_archive` up to the bytes that the archive parser is given. -/
def metadataView (content : List UInt8) : ArchiveCheck (List UInt8) := do
  let eocd ← readEocd content
  let placement ← place content eocd
  let directory ← readAt content placement.physicalDirectoryOffset eocd.centralDirectorySize
  let walk ← readEntries placement eocd.entries ⟨0, directory⟩
  require (walk.cursor = walk.directory.length)
    (badParams "PC-98 state archive central directory size is inconsistent")
  checkLocator content eocd.offset
  return walk.directory ++ viewEnd eocd.entries eocd.centralDirectorySize

end Emucap.Pc98Bridge
