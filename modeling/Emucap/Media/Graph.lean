import Emucap.Lib.Checked
import Emucap.Media.FileCalls

/-!
# Media graphs

`media_graph.rs`: the bounds of descriptor media and the check of the members a descriptor refers to.
-/

namespace Emucap.Media

open Emucap.Lib

def maxDescriptorBytes : ℕ := 1024 * 1024
def maxGraphMembers : ℕ := 256
def maxMemberBytes : ℕ := 2 * 1024 * 1024 * 1024
def maxGraphBytes : ℕ := 8 * 1024 * 1024 * 1024
def maxDeclaredNameBytes : ℕ := 48 * 1024

structure MediaReference where
  /-- Portable path relative to the graph's entry directory. -/
  declaredName : String
  deriving DecidableEq

variable {σ Handle : Type}
variable (fs : FileSystem σ Handle)

def readDescriptor (path : FsPath) (kind : String) (maxBytes : ℕ) : Call σ (List UInt8) := do
  let file ← mapError (fun error =>
      ⟨error.kind, s!"{kind} entry file is missing or unsafe: {path.display}: {error.message}"⟩)
    (openRegularFileNoFollow fs path)
  let before ← fs.fileMetadata file
  demand (before.len ≤ maxBytes) (invalidData s!"{kind} entry file exceeds {maxBytes} bytes: {path.display}")
  let limit := saturatingAdd maxBytes 1
  let (bytes, file) ← readTake fs limit limit file
  let after ← fs.fileMetadata file
  demand (bytes.length ≤ maxBytes) (invalidData s!"{kind} entry file exceeds {maxBytes} bytes: {path.display}")
  demand (bytes.length = before.len ∧ after.len = before.len ∧ after.modified = before.modified)
    (invalidData s!"{kind} entry file changed while it was read: {path.display}")
  pure bytes

def isControl (c : Char) : Bool := c.toNat < 0x20 || (0x7f ≤ c.toNat && c.toNat < 0xa0)

/-- A character that a loader may take for the end of a text or of a line. -/
def isUnsupported (c : Char) : Bool := isControl c && c != '\t' && c != '\n' && c != '\r'

/-- The offset in bytes of the first character that `p` holds of. -/
def findOffset (p : Char → Bool) : ℕ → List Char → Option ℕ
  | _, [] => none
  | offset, c :: rest => if p c then some offset else findOffset p (offset + c.utf8Size) rest

/-- `descriptor_text`. The text of the decoder stands in the error of bytes that are not UTF-8. -/
def descriptorText (bytes : List UInt8) (kind : String) : Except IoError (List Char) := do
  let text ← orError (invalidData "invalid utf-8 sequence") (fromUtf8 bytes)
  match findOffset isUnsupported 0 text.toList with
  | some offset => throw (invalidData s!"{kind} contains an unsupported control character at byte {offset}")
  | none => return text.toList

/-! ## Fields -/

/-- What has been read of a line: the fields, the characters of the next one, whether they are in quotes, and
whether it has begun. -/
structure Fields where
  fields : List String
  current : List Char
  quoted : Bool
  started : Bool

structure FieldErrors where
  unexpectedQuote : IoError
  tooMany : IoError
  unterminatedQuote : IoError

def finishField (errors : FieldErrors) (maxFields : ℕ) (read : Fields) : Except IoError Fields := do
  if read.started then
    require (read.fields.length < maxFields) errors.tooMany
    return { read with fields := read.fields ++ [String.ofList read.current], current := [], started := false }
  else return read

def readCharacter (errors : FieldErrors) (maxFields : ℕ) (read : Fields) (character : Char) :
    Except IoError Fields :=
  if character = '"' then
    if read.quoted then .ok { read with quoted := false, started := true }
    else if read.started then .error errors.unexpectedQuote
    else .ok { read with quoted := true, started := true }
  else if isWhitespace character && !read.quoted then finishField errors maxFields read
  else .ok { read with current := read.current ++ [character], started := true }

/-- The fields of a line; one that begins with a quote goes to the next quote. -/
def splitFields (errors : FieldErrors) (maxFields : ℕ) (line : List Char) : Except IoError (List String) := do
  let read ← line.foldlM (readCharacter errors maxFields) ⟨[], [], false, false⟩
  require (read.quoted = false) errors.unterminatedQuote
  return (← finishField errors maxFields read).fields

def quotedFields (line : List Char) (kind : String) (lineNumber maxFields : ℕ) : Except IoError (List String) :=
  splitFields {
    unexpectedQuote := invalidData s!"{kind} has an unexpected quote at line {lineNumber}"
    tooMany := invalidData s!"{kind} has too many fields at line {lineNumber}"
    unterminatedQuote := invalidData s!"{kind} has an unterminated quote at line {lineNumber}" } maxFields line

def eqIgnoreAsciiCase (a b : String) : Bool := a.toList.map Char.toUpper == b.toList.map Char.toUpper

/-! ## Companions of a descriptor -/

/-- `Path::file_stem` and `Path::extension`: the dot is the last one of the name, unless that is its first
character. -/
def splitExtension (name : String) : String × Option String :=
  match rsplitOnce '.' name.toList with
  | some (c :: stem, ending) => (String.ofList (c :: stem), some (String.ofList ending))
  | _ => (name, none)

/-- An extension, in upper case where the one of the descriptor is. -/
def mappedExtension (lower ending : String) : String :=
  String.ofList ((lower.toList.zip ending.toList).map fun (target, source) =>
    if source.isUpper then target.toUpper else target)

/-- `Path::extension` in lower case. -/
def lowerExtension (path : FsPath) : Option (List Char) :=
  (path.fileName.bind fun name => (splitExtension name).2).map fun ending => ending.toList.map Char.toLower

/-! ## Members -/

def memberError (kind : String) (reference : MediaReference) (error : IoError) : IoError :=
  ⟨if error.kind = .notFound then .notFound else .invalidData,
    s!"{kind} member is missing or unsafe (declared as {debugText reference.declaredName}): {error.message}"⟩

/-! ## References -/

/-- What the loop of `validate_references` has found. -/
structure Validation where
  paths : List FsPath
  seen : List FsPath
  totalSize : ℕ
  totalNameBytes : ℕ

/-- `Path::parent`, or the current directory. -/
def parentDirectory (entry : FsPath) : FsPath := entry.parent.getD (FsPath.new ".")

def validateReference (entry canonicalEntry : FsPath) (kind : String) (found : Validation)
    (reference : MediaReference) : Call σ Validation := do
  let totalNameBytes ← orThrow (invalidData "media member name size overflow")
    (checkedAdd found.totalNameBytes reference.declaredName.utf8ByteSize)
  demand (totalNameBytes ≤ maxDeclaredNameBytes) (invalidData "media graph declares too much file-name data")
  demand (isPortableRelativeMember reference.declaredName)
    (invalidData s!"{kind} member path escapes or is not portable: {debugText reference.declaredName}")
  let file ← mapError (memberError kind reference)
    (openRegularMemberNoFollow fs (parentDirectory entry) reference.declaredName)
  let metadata ← fs.fileMetadata file
  demand (metadata.len ≠ 0 ∧ metadata.len ≤ maxMemberBytes)
    (invalidData s!"{kind} member size is outside 1..={maxMemberBytes}: {debugText reference.declaredName}")
  let path ← mapError (memberError kind reference)
    (regularMemberPath fs (parentDirectory entry) reference.declaredName)
  demand (path ≠ canonicalEntry) (invalidData s!"{kind} entry file cannot also be a media member")
  if path ∈ found.seen then
    pure { found with paths := found.paths ++ [path], totalNameBytes }
  else do
    let totalSize ← orThrow (invalidData "media graph size overflow") (checkedAdd found.totalSize metadata.len)
    demand (totalSize ≤ maxGraphBytes)
      (invalidData s!"{kind} graph exceeds {maxGraphBytes} bytes: {entry.display}")
    pure { paths := found.paths ++ [path], seen := path :: found.seen, totalSize, totalNameBytes }

def validation (entry : FsPath) (kind : String) (references : List MediaReference) : Call σ Validation := do
  demand (references ≠ []) (invalidData s!"{kind} contains no media references: {entry.display}")
  demand (references.length ≤ maxGraphMembers - 1)
    (invalidData s!"{kind} references too many files: {entry.display}")
  let canonicalEntry ← fs.canonicalize entry
  let metadata ← fs.metadata entry
  references.foldlM (validateReference fs entry canonicalEntry kind) ⟨[], [], metadata.len, 0⟩

def validateReferences (entry : FsPath) (kind : String) (references : List MediaReference) :
    Call σ (List FsPath) :=
  Validation.paths <$> validation fs entry kind references

theorem validateReferences_portable {entry : FsPath} {kind : String} {references : List MediaReference}
    {paths : List FsPath} {s s' : σ} (h : validateReferences fs entry kind references s = .ok paths s') :
    ∀ reference ∈ references, isPortableRelativeMember reference.declaredName = true := by
  intro reference hreference
  rw [validateReferences, map_eq_pure_bind, bind_run_eq_ok] at h
  obtain ⟨found, t, hrun, -⟩ := h
  rw [validation, demand_bind_run_eq_ok, demand_bind_run_eq_ok, bind_run_eq_ok] at hrun
  obtain ⟨-, -, canonicalEntry, t₁, -, hrun⟩ := hrun
  obtain ⟨metadata, t₂, -, hrun⟩ := bind_run_eq_ok.mp hrun
  obtain ⟨before, after, u, u', hstep⟩ := foldlM_run_ok hrun reference hreference
  rw [validateReference, bind_run_eq_ok] at hstep
  obtain ⟨totalNameBytes, u₁, -, hstep⟩ := hstep
  rw [demand_bind_run_eq_ok, demand_bind_run_eq_ok] at hstep
  exact hstep.2.1

end Emucap.Media
