import Mathlib.Data.String.Basic
import Emucap.Lib.Text

/-!
# Portable names and paths

The identifier check of `path_safety.rs`, and the parts of `std::path` the capture code uses: a path is
read as its components, so that two spellings of one path are equal.
-/

namespace Emucap

/-! ## Identifiers -/

def isWindowsReservedComponent (value : String) : Bool :=
  let stem := (value.toList.splitOn '.').headD value.toList
  let upper := String.ofList (stem.map Char.toUpper)
  ["CON", "PRN", "AUX", "NUL", "CONIN$", "CONOUT$", "CLOCK$"].contains upper ||
    match upper.toList with
    | ['C', 'O', 'M', d] | ['L', 'P', 'T', d] => '1' ≤ d && d ≤ '9'
    | _ => false

def isHyphenatedAsciiId (value : String) (maxBytes : Nat) : Bool :=
  !value.isEmpty && value.utf8ByteSize ≤ maxBytes &&
    (value.toList.splitOn '-').all (fun segment => !segment.isEmpty && segment.all Char.isAlphanum) &&
    !isWindowsReservedComponent value

theorem utf8Size_of_isAlphanum {c : Char} (h : c.isAlphanum = true) : c.utf8Size = 1 := by
  have hcode := Lib.toNat_of_isAlphanum h
  have hle : c.val ≤ 0x7f := by
    rw [UInt32.le_iff_toNat_le]
    show c.toNat ≤ 127
    omega
  simp [Char.utf8Size, hle]

theorem utf8Len_of_isAlphanum {cs : List Char} (h : ∀ c ∈ cs, c.isAlphanum = true) :
    String.utf8Len cs = cs.length := by
  induction cs with
  | nil => rfl
  | cons c rest ih =>
    rw [String.utf8Len_cons, ih fun x hx => h x (by simp [hx]), utf8Size_of_isAlphanum (h c (by simp))]
    rfl

theorem not_mem_of_isAlphanum {cs : List Char} (sep : Char) (hsep : sep.isAlphanum = false)
    (h : ∀ c ∈ cs, c.isAlphanum = true) : sep ∉ cs := by
  intro hmem
  rw [h sep hmem] at hsep
  cases hsep

theorem isHyphenatedAsciiId_pair {a b : List Char} {maxBytes : Nat} (ha : a ≠ []) (hb : b ≠ [])
    (hca : ∀ c ∈ a, c.isAlphanum = true) (hcb : ∀ c ∈ b, c.isAlphanum = true)
    (hlong : 8 < a.length + b.length) (hmax : a.length + b.length + 1 ≤ maxBytes) :
    isHyphenatedAsciiId (String.ofList (a ++ '-' :: b)) maxBytes = true := by
  have hdash : '-'.isAlphanum = false := by decide
  have hsplit : (a ++ '-' :: b).splitOn '-' = [a, b] := by
    rw [List.splitOn_append_cons_self, List.splitOn_eq_singleton (not_mem_of_isAlphanum '-' hdash hca),
      List.splitOn_eq_singleton (not_mem_of_isAlphanum '-' hdash hcb)]
    rfl
  have hsize : (String.ofList (a ++ '-' :: b)).utf8ByteSize = a.length + b.length + 1 := by
    rw [String.utf8ByteSize_ofList, String.utf8Len_append, String.utf8Len_cons, utf8Len_of_isAlphanum hca,
      utf8Len_of_isAlphanum hcb, show '-'.utf8Size = 1 from rfl, Nat.add_assoc]
  have hreserved : isWindowsReservedComponent (String.ofList (a ++ '-' :: b)) = false := by
    have hdot : '.' ∉ a ++ '-' :: b := by
      have hda := not_mem_of_isAlphanum '.' (by decide) hca
      have hdb := not_mem_of_isAlphanum '.' (by decide) hcb
      simp [hda, hdb]
    simp only [isWindowsReservedComponent, String.toList_ofList, List.splitOn_eq_singleton hdot, List.headD_cons]
    have hlength : ((a ++ '-' :: b).map Char.toUpper).length = a.length + b.length + 1 := by simp; omega
    generalize (a ++ '-' :: b).map Char.toUpper = upper at hlength
    have hname : ∀ name : String, name.toList.length ≤ 8 → String.ofList upper ≠ name := by
      rintro name hname rfl
      rw [String.toList_ofList] at hname
      omega
    have hcontains : (["CON", "PRN", "AUX", "NUL", "CONIN$", "CONOUT$", "CLOCK$"].contains
        (String.ofList upper)) = false := by
      simp [hname]
    rw [hcontains, Bool.false_or]
    split
    · simp at hlength
      omega
    · simp at hlength
      omega
    · rfl
  simp only [isHyphenatedAsciiId, String.toList_ofList, hsplit, hsize, hreserved]
  simp only [List.all_cons, List.all_nil, Bool.and_true, Bool.not_false, Bool.and_eq_true, List.all_eq_true,
    Bool.not_eq_true', List.isEmpty_eq_false_iff, decide_eq_true_eq]
  refine ⟨⟨?_, hmax⟩, ⟨ha, hca⟩, hb, hcb⟩
  simp [String.isEmpty]

def isPortableComponent (value : String) : Bool :=
  value ≠ "" && value.utf8ByteSize ≤ 255 &&
    !(value.toList.getLast? == some '.' || value.toList.getLast? == some ' ') &&
    value.toList.all (fun c => 0x1f < c.toNat &&
      !(['<', '>', ':', '"', '/', '\\', '|', '?', '*'].contains c)) &&
    !isWindowsReservedComponent value

/-! ## Paths -/

structure FsPath where
  rooted : Bool
  components : List String
  deriving DecidableEq

namespace FsPath

/-- `Path::new`: empty components and inner `.` do not count. -/
def new (s : String) : FsPath :=
  let parts := (s.toList.splitOn '/').map String.ofList
  let rooted := s.toList.head? == some '/'
  let kept := parts.filter fun c => c != "" && c != "."
  ⟨rooted, if !rooted && parts.head? == some "." then "." :: kept else kept⟩

def parent (p : FsPath) : Option FsPath :=
  if p.components = [] then none else some { p with components := p.components.dropLast }

def fileName (p : FsPath) : Option String :=
  p.components.getLast?.filter fun c => c != ".." && c != "."

def join (p : FsPath) (name : String) : FsPath :=
  let tail := new name
  if tail.rooted then tail else { p with components := p.components ++ tail.components }

/-- `push` of one normal component. -/
def push (p : FsPath) (component : String) : FsPath := { p with components := p.components ++ [component] }

def startsWith (p base : FsPath) : Bool := p.rooted == base.rooted && base.components.isPrefixOf p.components

def display (p : FsPath) : String :=
  (if p.rooted then "/" else "") ++ String.intercalate "/" p.components

end FsPath

/-- A path of normal portable components below its root. -/
def isPortableRelativeMember (value : String) : Bool :=
  value ≠ "" && value.utf8ByteSize ≤ 4096 && !value.toList.contains '\\' && !(FsPath.new value).rooted &&
    (FsPath.new value).components.all fun c => c != "." && c != ".." && isPortableComponent c

/-- One portable component of ASCII letters, digits, hyphens, underscores and inner dots. -/
def isPortableFileName (value : String) (maxBytes : Nat) : Bool :=
  value ≠ "" && value.utf8ByteSize ≤ maxBytes && value.toList.head? != some '.' &&
    value.toList.getLast? != some '.' &&
    value.toList.all (fun c => c.isAlphanum || c == '-' || c == '_' || c == '.') &&
    isPortableRelativeMember value &&
    (FsPath.new value).parent.any fun parent => !parent.rooted && parent.components.isEmpty

end Emucap
