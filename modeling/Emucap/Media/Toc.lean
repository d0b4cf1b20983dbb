import Emucap.Media.Graph

/-!
# cdrdao tables

`references` and `validate_graph` of `toc.rs`: the files that the tracks of a table are read from.
-/

namespace Emucap.Media.Toc

open Emucap.Lib

def trackTypes : List String :=
  ["AUDIO", "MODE1", "MODE1_RAW", "MODE2", "MODE2_FORM1", "MODE2_FORM2", "MODE2_RAW", "CDI_RAW"]

def beforeComment : List Char → List Char
  | '/' :: '/' :: _ => []
  | c :: rest => c :: beforeComment rest
  | [] => []

def isAsciiWhitespace (c : Char) : Bool := [9, 10, 12, 13, 32].contains c.toNat

/-- The first item of `split_ascii_whitespace`. -/
def firstWord (line : List Char) : List Char :=
  (line.dropWhile isAsciiWhitespace).takeWhile fun c => !isAsciiWhitespace c

/-- What the loop over the lines has found. -/
structure Reading where
  references : List MediaReference
  trackCount : ℕ
  currentTrackHasFile : Bool

def isTrack (fields : List String) : Prop :=
  (fields.length = 2 ∨ fields.length = 3) ∧ trackTypes.any (eqIgnoreAsciiCase (fields.getD 1 "")) ∧
    (fields.length = 3 → ["RW", "RW_RAW"].any (eqIgnoreAsciiCase (fields.getD 2 "")))

instance (fields : List String) : Decidable (isTrack fields) := by
  unfold isTrack
  infer_instance

def readTrack (lineIndex : ℕ) (reading : Reading) (fields : List String) : Except IoError Reading := do
  require (reading.trackCount = 0 ∨ reading.currentTrackHasFile)
    (invalidData s!"TOC track has no file before line {lineIndex + 1}")
  require (isTrack fields) (invalidData s!"TOC TRACK directive is malformed at line {lineIndex + 1}")
  let trackCount ← orError (invalidData "TOC track count overflow")
    (if reading.trackCount + 1 < 2 ^ 8 then some (reading.trackCount + 1) else none)
  require (trackCount ≤ 99) (invalidData "TOC contains more than 99 tracks")
  return { reading with trackCount, currentTrackHasFile := false }

def readFile (lineIndex : ℕ) (reading : Reading) (fields : List String) : Except IoError Reading := do
  require (reading.trackCount ≠ 0 ∧ 2 ≤ fields.length ∧ fields.length ≤ 5)
    (invalidData s!"TOC file directive is malformed at line {lineIndex + 1}")
  require (isPortableRelativeMember (fields.getD 1 ""))
    (invalidData s!"TOC member path escapes or is not portable at line {lineIndex + 1}")
  require (reading.references.length < maxGraphMembers - 1) (invalidData "TOC contains too many file directives")
  return { reading with references := reading.references ++ [⟨fields.getD 1 ""⟩], currentTrackHasFile := true }

def readLine (lineIndex : ℕ) (reading : Reading) (sourceLine : List Char) : Except IoError Reading := do
  let line := trim (beforeComment sourceLine)
  let directive := String.ofList ((firstWord line).map Char.toUpper)
  if line ≠ [] ∧ directive ∈ ["TRACK", "FILE", "AUDIOFILE", "DATAFILE"] then
    let fields ← quotedFields line "TOC" (lineIndex + 1) 5
    if directive = "TRACK" then readTrack lineIndex reading fields else readFile lineIndex reading fields
  else return reading

def readLines : ℕ → Reading → List (List Char) → Except IoError Reading
  | _, reading, [] => .ok reading
  | lineIndex, reading, line :: rest => do readLines (lineIndex + 1) (← readLine lineIndex reading line) rest

def referencesOfText (text : List Char) : Except IoError (List MediaReference) := do
  let reading ← readLines 0 ⟨[], 0, false⟩ (lines text)
  require (reading.trackCount ≠ 0) (invalidData "TOC contains no TRACK")
  require reading.currentTrackHasFile (invalidData "TOC final track has no file")
  return reading.references

variable {σ Handle : Type} (fs : FileSystem σ Handle)

def references (path : FsPath) : Call σ (List MediaReference) := do
  let bytes ← readDescriptor fs path "TOC" maxDescriptorBytes
  let text ← fromExcept (descriptorText bytes "TOC")
  fromExcept (referencesOfText text)

def validateGraph (path : FsPath) : Call σ (List MediaReference) := do
  let found ← references fs path
  let _ ← validateReferences fs path "TOC" found
  return found

theorem validateGraph_portable {path : FsPath} {found : List MediaReference} {s s' : σ}
    (h : validateGraph fs path s = .ok found s') :
    ∀ reference ∈ found, isPortableRelativeMember reference.declaredName = true := by
  obtain ⟨references, t, -, hrun⟩ := bind_run_eq_ok.mp h
  obtain ⟨paths, t', hvalid, hrun⟩ := bind_run_eq_ok.mp hrun
  cases hrun
  exact validateReferences_portable fs hvalid

end Emucap.Media.Toc
