import Emucap.Media.Graph

/-!
# Cue sheets

`cue.rs` up to `validate_mednafen_graph`: the files a cue sheet names, the subchannel sidecar that Mednafen looks
for beside it, and the check of both.
-/

namespace Emucap.Media.Cue

open Emucap.Lib

def maxReferencedFiles : ℕ := 255
def maxCueBytes : ℕ := 64 * 1024 - 1
def maxCueLineBytes : ℕ := 510
def maxTrackBytes : ℕ := 2 * 1024 * 1024 * 1024
def maxSbiBytes : ℕ := 8 * 1024 * 1024

def cueFileTypes : List String := ["BINARY", "MOTOROLA", "OGG", "VORBIS", "WAVE", "WAV", "PCM", "MPC", "MP+"]

def cueTrackTypes : List String :=
  ["AUDIO", "CDG", "MODE1/2048", "MODE1/2352", "MODE2", "MODE2/2336", "MODE2/2048", "MODE2/2324", "MODE2/2352",
    "MODE2_FORM1", "MODE2_FORM2", "MODE2_FORM_MIX", "MODE2_RAW", "CDI/2336", "CDI/2352"]

inductive CueMemberRole where
  | track
  | mednafenSbi
  deriving DecidableEq

structure CueReference where
  declaredName : String
  path : FsPath
  role : CueMemberRole
  deriving DecidableEq

/-! ## Directives -/

def tokenizeDirective (line : List Char) (cue : FsPath) (lineNumber : ℕ) : Except IoError (List String) :=
  splitFields {
    unexpectedQuote := invalidData s!"CUE directive has an unexpected quote at {cue.display}:{lineNumber}"
    tooMany := invalidData s!"CUE directive has too many fields at {cue.display}:{lineNumber}"
    unterminatedQuote := invalidData s!"CUE directive has an unterminated quote at {cue.display}:{lineNumber}" }
    3 line

/-- What the loop over the lines has found. -/
structure Reading where
  references : List CueReference
  currentFileHasTrack : Bool
  lastTrack : Option ℕ

/-- `parse::<u8>`, of digits only. -/
def parseTrackNumber (digits : List Char) : Option ℕ :=
  if digits ≠ [] ∧ Nat.ofDigitChars 10 digits 0 < 2 ^ 8 then some (Nat.ofDigitChars 10 digits 0) else none

def readTrack (cue : FsPath) (lineNumber : ℕ) (reading : Reading) (tokens : List String) :
    Except IoError Reading := do
  require (reading.references ≠ []) (invalidData s!"CUE TRACK appears before FILE at {cue.display}:{lineNumber}")
  require (tokens.length = 3 ∧ (tokens.getD 1 "").toList.all Char.isDigit ∧
      cueTrackTypes.any (eqIgnoreAsciiCase (tokens.getD 2 "")))
    (invalidData s!"malformed CUE TRACK directive at {cue.display}:{lineNumber}")
  let track ← orError (invalidData s!"invalid CUE track number at {cue.display}:{lineNumber}")
    (parseTrackNumber (tokens.getD 1 "").toList)
  require ((1 ≤ track ∧ track ≤ 99) ∧ reading.lastTrack.all (fun previous => track = previous + 1))
    (invalidData s!"CUE track numbers must be consecutive and within 1..99 at {cue.display}:{lineNumber}")
  return { reading with lastTrack := some track, currentFileHasTrack := true }

def readFile (cue : FsPath) (lineNumber : ℕ) (reading : Reading) (tokens : List String) :
    Except IoError Reading := do
  require (reading.references = [] ∨ reading.currentFileHasTrack)
    (invalidData s!"CUE FILE has no TRACK before the next FILE at {cue.display}:{lineNumber}")
  require (tokens.length = 3 ∧ tokens.getD 1 "" ≠ "" ∧ cueFileTypes.any (eqIgnoreAsciiCase (tokens.getD 2 "")))
    (invalidData s!"malformed CUE FILE directive at {cue.display}:{lineNumber}")
  let declaredName := tokens.getD 1 ""
  require (isPortableRelativeMember declaredName)
    (invalidData
      s!"CUE FILE path escapes or is not portable at {cue.display}:{lineNumber}: {debugText declaredName}")
  let references := reading.references ++ [⟨declaredName, (parentDirectory cue).join declaredName, .track⟩]
  require (references.length ≤ maxReferencedFiles)
    (invalidData s!"CUE references more than {maxReferencedFiles} files: {cue.display}")
  return { reading with references, currentFileHasTrack := false }

def readLine (cue : FsPath) (lineIndex : ℕ) (reading : Reading) (line : List Char) : Except IoError Reading := do
  require ((String.ofList line).utf8ByteSize ≤ maxCueLineBytes)
    (invalidData s!"CUE line exceeds {maxCueLineBytes} bytes at {cue.display}:{lineIndex + 1}")
  let trimmed := trimStart line
  let directive := String.ofList (trimmed.takeWhile fun c => !isWhitespace c)
  if eqIgnoreAsciiCase directive "FILE" || eqIgnoreAsciiCase directive "TRACK" then
    let tokens ← tokenizeDirective trimmed cue (lineIndex + 1)
    if eqIgnoreAsciiCase directive "TRACK" then readTrack cue (lineIndex + 1) reading tokens
    else readFile cue (lineIndex + 1) reading tokens
  else return reading

def readLines (cue : FsPath) : ℕ → Reading → List (List Char) → Except IoError Reading
  | _, reading, [] => .ok reading
  | lineIndex, reading, line :: rest => do
    readLines cue (lineIndex + 1) (← readLine cue lineIndex reading line) rest

/-- A byte order mark before the text does not count. -/
def withoutMark (text : List Char) : List Char := if text.head? = some '\ufeff' then text.tail else text

def parseReferencedFiles (cue : FsPath) (bytes : List UInt8) : Except IoError (List CueReference) := do
  let text ← descriptorText bytes "CUE"
  let reading ← readLines cue 0 ⟨[], false, none⟩ (lines (withoutMark text))
  require (reading.references ≠ []) (invalidData s!"CUE contains no FILE directives: {cue.display}")
  require reading.currentFileHasTrack (invalidData s!"CUE FILE has no TRACK: {cue.display}")
  return reading.references

def mednafenSbiReference (cue : FsPath) : Except IoError CueReference := do
  let name ← orError (invalidData "CUE stem is not UTF-8") cue.fileName
  let stem := (splitExtension name).1
  let ending ← orError (invalidData "CUE extension is not UTF-8") (splitExtension name).2
  let declaredName := stem ++ "." ++ mappedExtension "sbi" ending
  require (isPortableRelativeMember declaredName) (invalidData "Mednafen SBI sidecar name is not portable")
  return ⟨declaredName, (parentDirectory cue).join declaredName, .mednafenSbi⟩

/-! ## Files -/

variable {σ Handle : Type} (fs : FileSystem σ Handle)

def readEntry (cue : FsPath) : Call σ (List UInt8) := do
  let file ← mapError (fun error =>
      ⟨error.kind, s!"CUE entry file is missing or unsafe: {cue.display}: {error.message}"⟩)
    (openRegularFileNoFollow fs cue)
  let before ← fs.fileMetadata file
  demand (before.len ≤ maxCueBytes) (invalidData s!"CUE entry file exceeds {maxCueBytes} bytes: {cue.display}")
  let (bytes, file) ← readTake fs (maxCueBytes + 1) (maxCueBytes + 1) file
  demand (bytes.length ≤ maxCueBytes) (invalidData s!"CUE entry file exceeds {maxCueBytes} bytes: {cue.display}")
  let after ← fs.fileMetadata file
  demand (after.len = before.len ∧ after.modified = before.modified)
    (invalidData s!"CUE entry file changed while it was read: {cue.display}")
  return bytes

def appendMednafenSbi (cue : FsPath) (references : List CueReference) : Call σ (List CueReference) := do
  let reference ← fromExcept (mednafenSbiReference cue)
  match ← attempt (fs.symlinkMetadata reference.path) with
  | .ok _ => do
    demand (references.length < maxReferencedFiles) (invalidData "CUE graph contains too many media members")
    return references ++ [reference]
  | .error error => if error.kind = .notFound then return references else throw error

def validBcd (byte : UInt8) : Bool := byte >>> 4 ≤ 9 && byte &&& 0x0f ≤ 9

/-- The records of a sidecar, read one after the other. -/
def checkSbiRecords : ℕ → Handle → Call σ Handle
  | 0, file => pure file
  | records + 1, file => do
    let (record, file) ← readExact fs 14 file
    demand ((record.take 3).all validBcd ∧ record.getD 3 0 = 1)
      (invalidData "Mednafen SBI sidecar contains an invalid record")
    checkSbiRecords records file

def checkedMemberMetadata (file : Handle) (cue : FsPath) (reference : CueReference) :
    Call σ (Metadata × Handle) := do
  let metadata ← fs.fileMetadata file
  demand (metadata.len ≠ 0) (invalidData
    s!"CUE referenced track is empty at {cue.display} (declared as {debugText reference.declaredName})")
  demand (metadata.len ≤ maxTrackBytes) (invalidData
    s!"CUE referenced track exceeds {maxTrackBytes} bytes at {cue.display} (declared as {debugText reference.declaredName})")
  if reference.role = .mednafenSbi then do
    demand (4 ≤ metadata.len ∧ metadata.len ≤ maxSbiBytes ∧ (metadata.len - 4) % 14 = 0)
      (invalidData "Mednafen SBI sidecar size or record length is invalid")
    let (header, file) ← readExact fs 4 file
    demand (header = [0x53, 0x42, 0x49, 0]) (invalidData "Mednafen SBI sidecar has an invalid header")
    let file ← checkSbiRecords fs ((metadata.len - 4) / 14) file
    return (metadata, ← fs.rewind file)
  else return (metadata, file)

def memberError (reference : CueReference) (error : IoError) : IoError :=
  ⟨if error.kind = .notFound then .notFound else .invalidData,
    s!"CUE referenced file is missing or unsafe: {reference.path.display} (declared as {debugText reference.declaredName}): {error.message}"⟩

/-- What the loop of `validate_references` has found. -/
structure Validation where
  references : List CueReference
  totalSize : ℕ
  totalNameBytes : ℕ
  seen : List FsPath

def validateReference (cue canonicalEntry : FsPath) (found : Validation) (reference : CueReference) :
    Call σ Validation := do
  let totalNameBytes ← orThrow (invalidData "CUE member name size overflow")
    (checkedAdd found.totalNameBytes reference.declaredName.utf8ByteSize)
  demand (totalNameBytes ≤ maxDeclaredNameBytes) (invalidData "CUE graph declares too much file-name data")
  let file ← mapError (memberError reference)
    (openRegularMemberNoFollow fs (parentDirectory cue) reference.declaredName)
  let (metadata, _) ← checkedMemberMetadata fs file cue reference
  let path ← mapError (memberError reference)
    (regularMemberPath fs (parentDirectory cue) reference.declaredName)
  demand (path ≠ canonicalEntry) (invalidData "CUE entry file cannot also be a track member")
  let references := found.references ++ [{ reference with path }]
  if path ∈ found.seen then return { found with references, totalNameBytes } else do
    let totalSize ← orThrow (invalidData "CUE graph size overflow") (checkedAdd found.totalSize metadata.len)
    demand (totalSize ≤ maxGraphBytes)
      (invalidData s!"CUE graph exceeds {maxGraphBytes} bytes: {cue.display}")
    return ⟨references, totalSize, totalNameBytes, path :: found.seen⟩

def validateReferences (cue : FsPath) (references : List CueReference) : Call σ (List CueReference) := do
  let canonicalEntry ← fs.canonicalize cue
  let totalSize := (← fs.metadata cue).len
  let found ← references.foldlM (validateReference fs cue canonicalEntry) ⟨[], totalSize, 0, []⟩
  return found.references

def referencesForIdentity (cue : FsPath) (cueBytes : List UInt8) (includeMednafenSbi : Bool) :
    Call σ (List CueReference) := do
  let references ← fromExcept (parseReferencedFiles cue cueBytes)
  let references ← if includeMednafenSbi then appendMednafenSbi fs cue references else pure references
  validateReferences fs cue references

def validateMednafenGraph (cue : FsPath) : Call σ (List CueReference) := do
  let cueBytes ← readEntry fs cue
  referencesForIdentity fs cue cueBytes true

/-! ## Names -/

def Portable (references : List CueReference) : Prop :=
  ∀ reference ∈ references, isPortableRelativeMember reference.declaredName = true

theorem Portable.concat {references : List CueReference} {reference : CueReference} (h : Portable references)
    (hlast : isPortableRelativeMember reference.declaredName = true) : Portable (references ++ [reference]) := by
  intro other hother
  rcases List.mem_append.mp hother with hold | hnew
  · exact h other hold
  · rw [List.mem_singleton.mp hnew]
    exact hlast

theorem readLine_portable {cue : FsPath} {lineIndex : ℕ} {reading next : Reading} {line : List Char}
    (hread : readLine cue lineIndex reading line = .ok next) (h : Portable reading.references) :
    Portable next.references := by
  rw [readLine, require_bind_eq_ok] at hread
  replace hread := hread.2
  dsimp only at hread
  split_ifs at hread with hdirective htrack
  · obtain ⟨tokens, -, hread⟩ := bind_eq_ok.mp hread
    simp only [readTrack, require_bind_eq_ok, orError_bind_eq_ok] at hread
    obtain ⟨-, -, track, -, -, hread⟩ := hread
    cases hread
    exact h
  · obtain ⟨tokens, -, hread⟩ := bind_eq_ok.mp hread
    simp only [readFile, require_bind_eq_ok] at hread
    obtain ⟨-, -, hportable, -, hread⟩ := hread
    cases hread
    exact h.concat hportable
  · cases hread
    exact h

theorem readLines_portable {cue : FsPath} {ls : List (List Char)} : ∀ {lineIndex : ℕ} {reading out : Reading},
    readLines cue lineIndex reading ls = .ok out → Portable reading.references → Portable out.references := by
  induction ls with
  | nil =>
    intro lineIndex reading out hread h
    cases hread
    exact h
  | cons line ls ih =>
    intro lineIndex reading out hread h
    obtain ⟨next, hline, hrest⟩ := bind_eq_ok.mp hread
    exact ih hrest (readLine_portable hline h)

theorem parseReferencedFiles_portable {cue : FsPath} {bytes : List UInt8} {references : List CueReference}
    (h : parseReferencedFiles cue bytes = .ok references) : Portable references := by
  obtain ⟨text, -, h⟩ := bind_eq_ok.mp h
  obtain ⟨reading, hread, h⟩ := bind_eq_ok.mp h
  rw [require_bind_eq_ok, require_bind_eq_ok] at h
  cases h.2.2
  exact readLines_portable hread fun reference hin => by cases hin

theorem appendMednafenSbi_portable {cue : FsPath} {references out : List CueReference} {s s' : σ}
    (hrun : appendMednafenSbi fs cue references s = .ok out s') (h : Portable references) : Portable out := by
  obtain ⟨reference, t, hreference, hrun⟩ := bind_run_eq_ok.mp hrun
  obtain ⟨answer, t', -, hrun⟩ := bind_run_eq_ok.mp hrun
  rcases answer with error | metadata
  · by_cases hmissing : error.kind = .notFound
    · simp only [if_pos hmissing] at hrun
      cases hrun
      exact h
    · simp only [if_neg hmissing] at hrun
      cases hrun
  · simp only [demand_bind_run_eq_ok] at hrun
    cases hrun.2
    simp only [fromExcept_run_eq_ok, mednafenSbiReference, orError_bind_eq_ok, require_bind_eq_ok] at hreference
    obtain ⟨⟨name, -, ending, -, hportable, heq⟩, -⟩ := hreference
    cases heq
    exact h.concat hportable

theorem validateReferences_names {cue : FsPath} {references out : List CueReference} {s s' : σ}
    (h : validateReferences fs cue references s = .ok out s') :
    out.map CueReference.declaredName = references.map CueReference.declaredName := by
  obtain ⟨canonicalEntry, t, -, h⟩ := bind_run_eq_ok.mp h
  obtain ⟨metadata, t', -, h⟩ := bind_run_eq_ok.mp h
  obtain ⟨found, t₁, hloop, h⟩ := bind_run_eq_ok.mp h
  cases h
  have hgeneral : ∀ (l : List CueReference) (before : Validation) (u u' : σ),
      l.foldlM (validateReference fs cue canonicalEntry) before u = .ok found u' →
      found.references.map CueReference.declaredName =
        before.references.map CueReference.declaredName ++ l.map CueReference.declaredName := by
    intro l
    induction l with
    | nil =>
      intro before u u' hrun
      cases hrun
      simp
    | cons reference l ih =>
      intro before u u' hrun
      rw [List.foldlM_cons, bind_run_eq_ok] at hrun
      obtain ⟨next, u₁, hstep, hrest⟩ := hrun
      have hnext : next.references.map CueReference.declaredName =
          before.references.map CueReference.declaredName ++ [reference.declaredName] := by
        obtain ⟨totalNameBytes, v₁, -, hstep⟩ := bind_run_eq_ok.mp hstep
        obtain ⟨-, hstep⟩ := demand_bind_run_eq_ok.mp hstep
        obtain ⟨file, v₂, -, hstep⟩ := bind_run_eq_ok.mp hstep
        obtain ⟨metadata, v₃, -, hstep⟩ := bind_run_eq_ok.mp hstep
        obtain ⟨path, v₄, -, hstep⟩ := bind_run_eq_ok.mp hstep
        obtain ⟨-, hstep⟩ := demand_bind_run_eq_ok.mp hstep
        split_ifs at hstep
        · cases hstep
          simp
        · obtain ⟨totalSize, v₅, -, hstep⟩ := bind_run_eq_ok.mp hstep
          obtain ⟨-, hstep⟩ := demand_bind_run_eq_ok.mp hstep
          cases hstep
          simp
      rw [ih next u₁ u' hrest, hnext, List.map_cons, List.append_assoc]
      rfl
  simpa using hgeneral references _ _ _ hloop

theorem validateMednafenGraph_portable {cue : FsPath} {references : List CueReference} {s s' : σ}
    (h : validateMednafenGraph fs cue s = .ok references s') : Portable references := by
  obtain ⟨bytes, t, -, h⟩ := bind_run_eq_ok.mp h
  simp only [referencesForIdentity, if_true, bind_run_eq_ok, fromExcept_run_eq_ok] at h
  obtain ⟨parsed, t₁, ⟨hparsed, -⟩, appended, t₂, happend, hvalid⟩ := h
  have hportable := appendMednafenSbi_portable fs happend (parseReferencedFiles_portable hparsed)
  intro reference hreference
  have hname := List.mem_map_of_mem (f := CueReference.declaredName) hreference
  rw [validateReferences_names fs hvalid] at hname
  obtain ⟨other, hother, heq⟩ := List.mem_map.mp hname
  rw [← heq]
  exact hportable other hother

end Emucap.Media.Cue
