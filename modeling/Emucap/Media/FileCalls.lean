import Emucap.Lib.Stateful
import Emucap.PathSafety

/-!
# The file system as the media code sees it

The calls of `std::fs` and of `rooted_fs.rs` that media descriptors and their members are read with, and the functions
of `path_safety.rs` over them. A `FileSystem` answers every call from outside: other processes may change a directory
between any two calls. An open file is a handle; reading gives the handle to read on with.
-/

namespace Emucap.Media

open Emucap.Lib

/-! ## Errors -/

inductive ErrorKind where
  | notFound
  | permissionDenied
  | alreadyExists
  | invalidInput
  | invalidData
  | unexpectedEof
  | other
  deriving DecidableEq

/-- `std::io::Error` with the text it displays. -/
structure IoError where
  kind : ErrorKind
  message : String
  deriving DecidableEq

def invalidData (message : String) : IoError := ⟨.invalidData, message⟩

def invalidInput (message : String) : IoError := ⟨.invalidInput, message⟩

/-- `{:?}` of a string; beyond ASCII every character stands as it is. -/
def debugText (text : String) : String :=
  "\"" ++ String.join (text.toList.map fun c =>
    if c = '"' then "\\\"" else if c = '\\' then "\\\\" else if c = '\n' then "\\n" else if c = '\r' then "\\r"
    else if c = '\t' then "\\t" else if c.toNat = 0 then "\\0"
    else if c.toNat < 0x20 ∨ c.toNat = 0x7f then "\\u\x7b" ++ String.ofList (Nat.toDigits 16 c.toNat) ++ "\x7d"
    else String.singleton c) ++ "\""

/-! ## Calls -/

inductive FileType where
  | file
  | dir
  | symlink
  | other
  deriving DecidableEq

structure Metadata where
  fileType : FileType
  len : ℕ
  modified : Option ℕ
  dev : ℕ
  ino : ℕ
  deriving DecidableEq

abbrev Call (σ : Type) := EStateM IoError σ

structure FileSystem (σ Handle : Type) where
  symlinkMetadata : FsPath → Call σ Metadata
  metadata : FsPath → Call σ Metadata
  canonicalize : FsPath → Call σ FsPath
  /-- Opens for reading, without following a link at the last component. -/
  openFile : FsPath → Call σ Handle
  /-- The member below a canonical root: every component is opened from its parent's handle, none through a
  link, and the last one is a regular file. -/
  openMember : FsPath → List String → Call σ Handle
  fileMetadata : Handle → Call σ Metadata
  read : Handle → (n : ℕ) → Call σ ({chunk : List UInt8 // chunk.length ≤ n} × Handle)
  /-- `seek(SeekFrom::Start(0))`. -/
  rewind : Handle → Call σ Handle

variable {σ Handle : Type} (fs : FileSystem σ Handle)

/-- Reads through `take(limit)` to the end, at most `buffer` bytes at a time. A chunk takes at least one byte off
the limit, so that `limit` chunks are enough. -/
def readChunks (buffer : ℕ) : (chunks limit : ℕ) → Handle → Call σ (List UInt8 × Handle)
  | 0, _, file => pure ([], file)
  | chunks + 1, limit, file =>
    if limit = 0 then pure ([], file) else do
      let (chunk, file) ← fs.read file (min buffer limit)
      if chunk.1 = [] then pure ([], file) else do
        let (rest, file) ← readChunks buffer chunks (limit - chunk.1.length) file
        pure (chunk.1 ++ rest, file)

def readTake (buffer limit : ℕ) (file : Handle) : Call σ (List UInt8 × Handle) :=
  readChunks fs buffer limit limit file

def readExact (n : ℕ) (file : Handle) : Call σ (List UInt8 × Handle) := do
  let (bytes, file) ← readTake fs n n file
  demand (bytes.length = n) ⟨.unexpectedEof, "failed to fill whole buffer"⟩
  pure (bytes, file)

/-- `saturating_add` of 64-bit numbers. -/
def saturatingAdd (a b : ℕ) : ℕ := min (a + b) (2 ^ 64 - 1)

/-! ## Members -/

/-- Whether a path component is `Component::Normal`. -/
def isNormal (component : String) : Bool := component != "." && component != ".."

/-- The components below `current`, one after the other: directories, and a regular file at the end. -/
def walkMember : (current : FsPath) → List String → Call σ FsPath
  | current, [] => pure current
  | current, component :: rest => do
    demand (isNormal component) (invalidInput "member path contains an unsafe component")
    let metadata ← fs.symlinkMetadata (current.push component)
    demand (metadata.fileType = if rest = [] then .file else .dir)
      (invalidInput "managed member contains a symlink or unexpected file type")
    walkMember (current.push component) rest

def regularMemberPath (root : FsPath) (relative : String) : Call σ FsPath := do
  demand (isPortableRelativeMember relative)
    (invalidInput "member path must remain relative to its managed root")
  let rootMetadata ← fs.symlinkMetadata root
  demand (rootMetadata.fileType = .dir) (invalidInput "managed root is not a real directory")
  let canonicalRoot ← fs.canonicalize root
  let current ← walkMember fs root (FsPath.new relative).components
  let canonical ← fs.canonicalize current
  demand (canonical.startsWith canonicalRoot) (invalidInput "managed member escapes its root")
  pure canonical

def openRegularFileNoFollow (path : FsPath) : Call σ Handle := do
  let pathMetadata ← fs.symlinkMetadata path
  demand (pathMetadata.fileType = .file) (invalidInput "path is not a regular non-symlink file")
  let file ← fs.openFile path
  let handleMetadata ← fs.fileMetadata file
  demand (handleMetadata.fileType = .file ∧ pathMetadata.dev = handleMetadata.dev ∧
      pathMetadata.ino = handleMetadata.ino)
    (invalidInput "opened path is not the validated regular file")
  pure file

def openRegularMemberNoFollow (root : FsPath) (relative : String) : Call σ Handle := do
  demand (isPortableRelativeMember relative)
    (invalidInput "member path must remain relative to its managed root")
  let canonical ← fs.canonicalize root
  let components := (FsPath.new relative).components
  demand (components ≠ [] ∧ components.all isNormal)
    (invalidInput "member path must contain only normal relative components")
  fs.openMember canonical components

/-! ## A tree that does not change -/

/-- An open file: where it is in the list of files, what it holds and what has not been read of it. -/
structure OpenFile where
  index : ℕ
  content : List UInt8
  unread : List UInt8
  deriving DecidableEq

/-- Directories and files by their components. -/
structure DirectoryTree where
  directories : List (List String)
  files : List (List String × List UInt8)

namespace DirectoryTree

def notFound : IoError := ⟨.notFound, "No such file or directory (os error 2)"⟩

def fileAt (tree : DirectoryTree) (components : List String) : Option OpenFile :=
  (tree.files.findIdx? fun file => file.1 == components).bind fun index =>
    tree.files[index]?.map fun file => ⟨index, file.2, file.2⟩

def metadataOf (file : OpenFile) : Metadata := ⟨.file, file.content.length, none, 0, file.index⟩

def metadataAt (tree : DirectoryTree) (path : FsPath) : Call Unit Metadata :=
  if path.components ∈ tree.directories then pure ⟨.dir, 0, none, 0, 0⟩
  else orThrow notFound ((tree.fileAt path.components).map metadataOf)

/-- The calls, answered by the tree. -/
def fileSystem (tree : DirectoryTree) : FileSystem Unit OpenFile where
  symlinkMetadata := tree.metadataAt
  metadata := tree.metadataAt
  canonicalize path := do
    let _ ← tree.metadataAt path
    pure ⟨true, path.components⟩
  openFile path := orThrow notFound (tree.fileAt path.components)
  openMember root components := orThrow notFound (tree.fileAt (root.components ++ components))
  fileMetadata file := pure (metadataOf file)
  read file n := pure (⟨file.unread.take n, List.length_take_le n file.unread⟩, { file with unread := file.unread.drop n })
  rewind file := pure { file with unread := file.content }

end DirectoryTree

end Emucap.Media
