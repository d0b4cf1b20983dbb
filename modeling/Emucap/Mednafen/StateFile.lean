import Emucap.Lib.Memory
import Emucap.Lib.Text

/-!
# Native state files

`EmucapStateFile` of `emucap_state_file.h`: a state has a header and a preview image, and then sections of named fields
up to its end. Every read and every offset is checked here, so that a run shows whether the code keeps to the bytes that
it was given: `validate` does (`ensures_validate`), and what it accepts is tiled by its sections (`Tiled`).
-/

namespace Emucap.Mednafen

open Emucap.Lib

abbrev Check := CheckedRun String

namespace EmucapStateFile

def maxBytes : ℕ := 128 * 1024 * 1024

/-- `require` of the source: `count` bytes from `cursor` on end before `last`. -/
def requireRoom (cursor count last : ℕ) : Check Unit :=
  require (cursor ≤ last ∧ count ≤ last - cursor) (reject "truncated native state record")

/-- The bytes of a name, up to the first that is zero. -/
def nameOf (raw : List UInt8) : List UInt8 := raw.takeWhile (· != 0)

def name (bytes : List UInt8) (cursor count : ℕ) : Check (List UInt8) := do
  let raw ← slice bytes cursor count
  require (nameOf raw ≠ []) (reject "empty native state name")
  return nameOf raw

/-- The loop over the fields of a section that ends at `last`: the number of fields of the file so far, and the
cursor. -/
def readFields (bytes : List UInt8) (last : ℕ) :
    (rounds : ℕ) → (fields : List (List UInt8)) → (totalFields cursor : ℕ) → Check (ℕ × ℕ)
  | 0, _, _, _ => .error .unfinished
  | rounds + 1, fields, totalFields, cursor =>
    if cursor < last then do
      requireRoom cursor 1 last
      let nameSize ← wordAt bytes cursor 1
      let cursor ← plus cursor 1
      requireRoom cursor (← plus nameSize 4) last
      let field ← name bytes cursor nameSize
      require (totalFields + 1 ≤ 65536 ∧ field ∉ fields) (reject "duplicate or excessive native state fields")
      let cursor ← plus cursor nameSize
      let count ← wordAt bytes cursor 4
      let cursor ← plus cursor 4
      requireRoom cursor count last
      let cursor ← plus cursor count
      readFields bytes last rounds (field :: fields) (totalFields + 1) cursor
    else .ok (totalFields, cursor)

def readSections (bytes : List UInt8) :
    (rounds : ℕ) → (sections : List (List UInt8)) → (totalFields cursor : ℕ) → Check Unit
  | 0, _, _, _ => .error .unfinished
  | rounds + 1, sections, totalFields, cursor =>
    if cursor < bytes.length then do
      requireRoom cursor 36 bytes.length
      let name ← name bytes cursor 32
      require (sections.length < 4096 ∧ name ∉ sections) (reject "duplicate or excessive native state sections")
      let length ← wordAt bytes (← plus cursor 32) 4
      let cursor ← plus cursor 36
      requireRoom cursor length bytes.length
      let last ← plus cursor length
      let (totalFields, cursor) ← readFields bytes last (bytes.length + 1) [] totalFields cursor
      readSections bytes rounds (name :: sections) totalFields cursor
    else .ok ()

def checkMagic (bytes : List UInt8) : Check Unit := do
  let short ← slice bytes 0 8
  if short = utf8 "MDFNSVST" then .ok ()
  else do
    let long ← slice bytes 0 16
    require (long = utf8 "MEDNAFENSVESTATE") (reject "invalid native state header or size")

/-- The bytes of the preview, whose size in pixels the header gives. -/
def previewSize (bytes : List UInt8) : Check ℕ := do
  let width ← wordAt bytes 24 4
  let height ← wordAt bytes 28 4
  let room ← minus bytes.length 32
  require (height = 0 ∨ width ≤ room / 3 / height) (reject "native preview exceeds state")
  let pixels ← times width height
  times pixels 3

def validate (bytes : List UInt8) : Check Unit := do
  require (32 ≤ bytes.length ∧ bytes.length ≤ maxBytes) (reject "invalid native state header or size")
  checkMagic bytes
  let version ← wordAt bytes 16 4
  require (0x900 ≤ version ∧ version ≤ 0x7fffffff) (reject "unsupported native state version")
  let declared ← wordAt bytes 20 4
  require (declared % 2 ^ 31 = bytes.length) (reject "native state length differs")
  let preview ← previewSize bytes
  let cursor ← plus 32 preview
  readSections bytes (bytes.length + 1) [] 0 cursor

/-! ## Tiles -/

/-- A field: the bytes of its name, some of which may stand behind a zero, and what it holds. -/
structure Field where
  rawName : List UInt8
  data : List UInt8

def Field.name (f : Field) : List UInt8 := nameOf f.rawName

def Field.encode (f : Field) : List UInt8 :=
  littleEndian 1 f.rawName.length ++ f.rawName ++ (littleEndian 4 f.data.length ++ f.data)

structure Section where
  rawName : List UInt8
  fields : List Field

def Section.name (s : Section) : List UInt8 := nameOf s.rawName

def Section.body (s : Section) : List UInt8 := s.fields.flatMap Field.encode

def Section.encode (s : Section) : List UInt8 := s.rawName ++ (littleEndian 4 s.body.length ++ s.body)

/-- The lengths of a field are those that its counts say. -/
structure Field.Fits (f : Field) : Prop where
  name : f.rawName.length < 256
  data : f.data.length < 256 ^ 4

/-- A section has its name in 32 bytes, and its fields have names of their own. -/
structure Section.Fits (s : Section) : Prop where
  name : s.rawName.length = 32
  body : s.body.length < 256 ^ 4
  fields : ∀ f ∈ s.fields, f.Fits ∧ f.name ≠ []
  distinct : (s.fields.map Field.name).Nodup

/-- The bytes from `first` on are sections with names of their own. -/
def Tiled (bytes : List UInt8) (first : ℕ) : Prop :=
  first ≤ bytes.length ∧ ∃ sections : List Section, bytes.drop first = sections.flatMap Section.encode ∧
    (∀ s ∈ sections, s.Fits ∧ s.name ≠ []) ∧ (sections.map Section.name).Nodup

end EmucapStateFile

end Emucap.Mednafen
