import Emucap.Lib.OrdMap
import Mathlib.Data.Nat.Notation

/-!
# Trees of files

A node is a file, a directory, a symbolic link or something else. `stat?` follows links on the way but not at the last
name, as `lstat` does; `openMember` follows none.
-/

namespace Emucap.Lib

inductive FsNode where
  | file (bytes : List UInt8) (isPrivate : Bool)
  | dir (entries : List (String × FsNode)) (isPrivate : Bool)
  | symlink (target : Option FsNode)
  | special

namespace FsNode

def isFile : FsNode → Bool
  | .file _ _ => true
  | _ => false

def isDir : FsNode → Bool
  | .dir _ _ => true
  | _ => false

def isOwned : FsNode → Bool
  | .file _ isPrivate | .dir _ isPrivate => isPrivate
  | _ => false

def size : FsNode → ℕ
  | .file bytes _ => bytes.length
  | _ => 0

def resolve : FsNode → Option FsNode
  | .symlink (some target) => target.resolve
  | .symlink none => none
  | node => some node

def entries : FsNode → List (String × FsNode)
  | .dir entries _ => entries
  | _ => []

def child (node : FsNode) (name : String) : Option FsNode := OrdMap.find? name node.entries

/-- The node at a path; links on the way are followed. -/
def stat? (node : FsNode) : List String → Option FsNode
  | [] => some node
  | name :: path => do
    let parent ← node.resolve
    let next ← parent.child name
    next.stat? path

/-- The bytes of the file at a path without links. -/
def openMember (node : FsNode) : List String → Option (List UInt8)
  | [] =>
    match node with
    | .file bytes _ => some bytes
    | _ => none
  | name :: path => do
    let next ← node.child name
    next.openMember path

@[simp] theorem resolve_dir (es : List (String × FsNode)) (p : Bool) : (dir es p).resolve = some (.dir es p) := rfl

@[simp] theorem child_dir (es : List (String × FsNode)) (p : Bool) (name : String) :
    (dir es p).child name = OrdMap.find? name es := rfl

section same
variable {es es' : List (String × FsNode)} {p : Bool} {name : String}

theorem stat?_dir_congr (h : OrdMap.find? name es = OrdMap.find? name es') (path : List String) :
    (dir es p).stat? (name :: path) = (dir es' p).stat? (name :: path) := by
  simp only [stat?, resolve_dir, child_dir, h, Option.bind_eq_bind, Option.bind_some]

theorem openMember_dir_congr (h : OrdMap.find? name es = OrdMap.find? name es') (path : List String) :
    (dir es p).openMember (name :: path) = (dir es' p).openMember (name :: path) := by
  simp only [openMember, child_dir, h]

end same

end FsNode

end Emucap.Lib
