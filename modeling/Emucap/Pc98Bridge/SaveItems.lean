import Emucap.InputMovie
import Emucap.Lib.Json
import Emucap.PathSafety
import Emucap.Pc98Bridge.StateArchive

/-!
# The save items of a state archive

`parse_save_item_manifest` and `extract_save_items` (`pc98_bridge/support/state_archive.rs`). What a member yields
when it is read, and where the file system refuses to write, is left open.
-/

namespace Emucap.Pc98Bridge

open Emucap.Lib

def saveItemsDir : String := "saveitems"
def saveItemsManifest : String := "saveitems/manifest.txt"
def maxSaveItemMembers : ℕ := 4096
def maxSaveItemManifestBytes : ℕ := 1024 * 1024
def maxSaveItemFilenameBytes : ℕ := 255
def maxSaveItemInteger : ℕ := 9007199254740991
def maxSaveItemMemberBytes : ℕ := 128 * 1024 * 1024
def maxSaveItemTotalBytes : ℕ := 512 * 1024 * 1024

def toAsciiLowercase (name : String) : List Char := name.toList.map Char.toLower

/-! ## The manifest -/

structure SaveItemManifestEntry where
  filename : String
  bytesLen : ℕ
  deriving DecidableEq

/-- What the loop over the lines has collected. -/
structure ManifestReading where
  entries : List SaveItemManifestEntry
  indexes : List ℕ
  filenames : List (List Char)
  totalBytes : ℕ

def splitTerminator (sep : Char) (text : List Char) : List (List Char) :=
  let pieces := text.splitOn sep
  if pieces.getLast? = some [] then pieces.dropLast else pieces

def isDecimal (field : List Char) : Bool := !field.isEmpty && field.all Char.isDigit

def parseDecimal (lineNumber : ℕ) (field : List Char) (name : String) : ArchiveCheck ℕ := do
  require (isDecimal field) (badParams s!"PC-98 save item manifest line {lineNumber} has invalid {name}")
  let value ← orError (badParams s!"PC-98 save item manifest line {lineNumber} has overflowing {name}")
    (InputMovie.parseU64 field)
  require (value ≤ maxSaveItemInteger)
    (badParams s!"PC-98 save item manifest line {lineNumber} has out-of-range {name}")
  return value

def parseFields (lineNumber : ℕ) (found : ManifestReading) (index size count bytes filename : List Char) :
    ArchiveCheck ManifestReading := do
  let index ← parseDecimal lineNumber index "index"
  let size ← parseDecimal lineNumber size "size"
  let count ← parseDecimal lineNumber count "count"
  let bytesLen ← parseDecimal lineNumber bytes "byte length"
  let filename := String.ofList filename
  let expectedLen ← orError (badParams s!"PC-98 save item manifest line {lineNumber} byte length overflows")
    (checkedMul size count)
  require (bytesLen = expectedLen)
    (badParams s!"PC-98 save item manifest line {lineNumber} byte length does not equal size * count")
  require (bytesLen ≤ maxSaveItemMemberBytes)
    (badParams s!"PC-98 save item manifest line {lineNumber} exceeds {maxSaveItemMemberBytes} bytes")
  require (isPortableFileName filename maxSaveItemFilenameBytes ∧
      toAsciiLowercase filename ≠ toAsciiLowercase "manifest.txt")
    (badParams s!"PC-98 save item manifest line {lineNumber} has an unsafe filename")
  require (index ∉ found.indexes) (badParams s!"PC-98 save item manifest repeats index {index}")
  require (toAsciiLowercase filename ∉ found.filenames)
    (badParams s!"PC-98 save item manifest repeats filename {filename}")
  let totalBytes ← orError (badParams "PC-98 save item manifest byte count overflow")
    (checkedAdd found.totalBytes bytesLen)
  require (totalBytes ≤ maxSaveItemTotalBytes)
    (badParams s!"PC-98 save item manifest bytes exceed {maxSaveItemTotalBytes}")
  return ⟨found.entries ++ [⟨filename, bytesLen⟩], found.indexes ++ [index],
    found.filenames ++ [toAsciiLowercase filename], totalBytes⟩

def parseManifestLine (lineNumber : ℕ) (found : ManifestReading) (line : List Char) : ArchiveCheck ManifestReading := do
  require (line ≠ []) (badParams s!"PC-98 save item manifest line {lineNumber} is empty")
  require (found.entries.length < maxSaveItemMembers - 1)
    (badParams s!"PC-98 save item manifest exceeds {maxSaveItemMembers - 1} entries")
  match line.splitOn '|' with
  | [index, size, count, bytes, filename] => parseFields lineNumber found index size count bytes filename
  | _ => .error (badParams s!"PC-98 save item manifest line {lineNumber} must contain five fields")

def parseManifestLines : ℕ → ManifestReading → List (List Char) → ArchiveCheck ManifestReading
  | _, found, [] => .ok found
  | lineNumber, found, line :: rest => do
    parseManifestLines (lineNumber + 1) (← parseManifestLine lineNumber found line) rest

def parseSaveItemManifest (bytes : List UInt8) : ArchiveCheck (List SaveItemManifestEntry) := do
  let text ← orError (badParams "PC-98 save item manifest is not UTF-8") (fromUtf8 bytes)
  let found ← parseManifestLines 1 ⟨[], [], [], 0⟩ (splitTerminator '\n' text.toList)
  return found.entries

/-! ## The archive -/

/-- A member: what the directory says of it, whether it can be opened, and what it yields when it is read to its end.
Where it is not sound, reading on behind that fails. -/
structure Member where
  name : String
  size : ℕ
  opens : Bool
  content : List UInt8
  sound : Bool
  deriving DecidableEq

def byName (archive : List Member) (name : String) : ArchiveCheck Member := do
  let member ← orError .io (archive.find? (·.name = name))
  require member.opens .io
  return member

def Member.readTake (member : Member) (limit : ℕ) : ArchiveCheck (List UInt8) := do
  require (limit ≤ member.content.length ∨ member.sound) .io
  return member.content.take limit

/-! ## The directory that is written -/

/-- Whether a directory can be made at the path, and which files can be made and written in it. -/
structure Target where
  makesDir : Bool
  makesFile : String → Bool
  writesFile : String → Bool

structure Written where
  totalBytes : ℕ
  files : List (String × List UInt8)

/-- The directory of save items that the manifest of a state names. -/
def saveItemsDirectory (saveItems : List (String × Json)) : List Char :=
  let named := ((OrdMap.find? "dir" saveItems).bind Json.asStr).getD saveItemsDir
  (named.toList.dropWhile (· = '/')).rdropWhile (· = '/')

def memberName (filename : String) : String := saveItemsDir ++ "/" ++ filename

def checkNames (seen : List String) : List String → ArchiveCheck Unit
  | [] => .ok ()
  | name :: rest => do
    require (name ∉ seen) (badParams s!"duplicate PC-98 save item member: {name}")
    require (toAsciiLowercase name ∉ seen.map toAsciiLowercase)
      (badParams s!"case-colliding PC-98 save item member: {name}")
    checkNames (seen ++ [name]) rest

def readSaveItemManifest (archive : List Member) : ArchiveCheck (List SaveItemManifestEntry) := do
  let manifestFile ← byName archive saveItemsManifest
  require (manifestFile.size ≤ maxSaveItemManifestBytes)
    (badParams s!"PC-98 save item manifest exceeds {maxSaveItemManifestBytes} bytes")
  let bytes ← manifestFile.readTake (maxSaveItemManifestBytes + 1)
  require (bytes.length ≤ maxSaveItemManifestBytes)
    (badParams s!"PC-98 save item manifest exceeds {maxSaveItemManifestBytes} bytes")
  require (bytes.length = manifestFile.size)
    (badParams "PC-98 save item manifest size changed while reading")
  parseSaveItemManifest bytes

def checkEntry (archive : List Member) (names : List String) (entry : SaveItemManifestEntry) : ArchiveCheck Unit := do
  let member := memberName entry.filename
  require (member ∈ names) (badParams s!"PC-98 save item manifest references missing member: {member}")
  let file ← byName archive member
  require (file.size = entry.bytesLen) (badParams s!"PC-98 save item manifest length does not match {member}")

def leastName (names : List String) : Option String :=
  names.foldl (fun least name => some (least.elim name fun least => if name < least then name else least)) none

def approvedNames (entries : List SaveItemManifestEntry) : List String :=
  saveItemsManifest :: entries.map fun entry => memberName entry.filename

def relativeName (name : String) : String := String.ofList (name.toList.drop (saveItemsDir.length + 1))

def writeItem (target : Target) (archive : List Member) (written : Written) (name : String) : ArchiveCheck Written := do
  let rel := relativeName name
  require (isPortableFileName rel maxSaveItemFilenameBytes) (badParams s!"unsafe PC-98 save item member: {name}")
  let src ← byName archive name
  require (src.size ≤ maxSaveItemMemberBytes)
    (badParams s!"PC-98 save item exceeds {maxSaveItemMemberBytes} bytes: {name}")
  let totalBytes ← orError (badParams "PC-98 save item byte count overflow") (checkedAdd written.totalBytes src.size)
  require (totalBytes ≤ maxSaveItemTotalBytes) (badParams s!"PC-98 save item bytes exceed {maxSaveItemTotalBytes}")
  require (target.makesFile rel ∧ rel ∉ written.files.map Prod.fst) .io
  let copied ← src.readTake (maxSaveItemMemberBytes + 1)
  require (target.writesFile rel) .io
  require (copied.length = src.size ∧ copied.length ≤ maxSaveItemMemberBytes)
    (badParams s!"PC-98 save item size changed during extraction: {name}")
  return ⟨totalBytes, written.files ++ [(rel, copied)]⟩

def saveItemNames (archive : List Member) : List String :=
  (archive.map Member.name).filter fun name => (saveItemsDir ++ "/").toList.isPrefixOf name.toList

/-- `extract_save_items`, with the files of the directory that it answers. -/
def extractSaveItems (target : Target) (archive : List Member) (manifest : Json) :
    ArchiveCheck (Option (List (String × List UInt8))) :=
  match (manifest.get "save_items").bind Json.asObject with
  | none => .ok none
  | some saveItems => do
    let directory := saveItemsDirectory saveItems
    require (directory = saveItemsDir.toList)
      (badParams s!"unsupported PC-98 save item directory: {String.ofList directory}")
    let names := saveItemNames archive
    require (names.length ≤ maxSaveItemMembers) (badParams s!"PC-98 save item count exceeds {maxSaveItemMembers}")
    require (saveItemsManifest ∈ names) (badParams "PC-98 save item manifest is missing")
    checkNames [] names
    let manifestEntries ← readSaveItemManifest archive
    manifestEntries.forM (checkEntry archive names)
    let approved := approvedNames manifestEntries
    let unexpected := (leastName (names.filter (· ∉ approved))).getD "missing manifest member"
    require ((∀ name ∈ names, name ∈ approved) ∧ ∀ name ∈ approved, name ∈ names)
      (badParams s!"unexpected PC-98 save item member: {unexpected}")
    require target.makesDir .io
    let written ← approved.foldlM (writeItem target archive) ⟨0, []⟩
    return some written.files

end Emucap.Pc98Bridge
