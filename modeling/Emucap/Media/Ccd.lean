import Emucap.Lib.OrdMap
import Emucap.Media.Graph
import Emucap.NumParse
import Mathlib.Data.List.Nodup

/-!
# CloneCD descriptors

`references` of `ccd.rs`. A table is accepted exactly if it is `Complete`. An entry is found by the canonical spelling
of its number, so a number that is spelled in another way only, as in `[Entry 00]`, ends in a panic.
-/

namespace Emucap.Media

open Emucap.Lib

namespace Ccd

/-- What ends a function early: an error it returns, or a panic. -/
inductive Failure where
  | io (error : IoError)
  | panic (message : String)
  deriving DecidableEq

def invalid (message : String) : Failure := .io (invalidData message)

def maxSections : ℕ := 256
def maxKeys : ℕ := 4096

abbrev Pairs := List (List Char × List Char)

abbrev Sections := List (List Char × Pairs)

def upper (text : List Char) : List Char := text.map Char.toUpper

/-! ## Companions -/

def companionNames (path : FsPath) : Except Failure (String × String) := do
  let name ← orError (invalid "CCD file stem is not portable UTF-8") path.fileName
  let stem := (splitExtension name).1
  let ending ← orError (invalid "CCD extension is not UTF-8") (splitExtension name).2
  require (ending.toList.map Char.toLower = "ccd".toList) (invalid "CloneCD entry must use a .ccd extension")
  return (stem ++ "." ++ mappedExtension "img" ending, stem ++ "." ++ mappedExtension "sub" ending)

/-! ## Sections -/

def bracketed (line : List Char) : Option (List Char) :=
  if line.head? = some '[' ∧ line.tail.getLast? = some ']' then some line.tail.dropLast else none

/-- What the loop over the lines has read. -/
structure Reading where
  sections : Sections
  current : Option (List Char)
  keyCount : ℕ

/-- A value of the current section. No section of that name is the panic of `expect`. -/
def insertValue (sections : Sections) (name key value : List Char) (lineIndex : ℕ) : Except Failure Sections := do
  let pairs ← orError (.panic "current CCD section exists") (OrdMap.find? name sections)
  require ((OrdMap.find? key pairs).isNone) (invalid s!"CCD repeats a key at line {lineIndex + 1}")
  return sections.map fun entry => if entry.1 = name then (name, entry.2 ++ [(key, value)]) else entry

def parseLine (lineIndex : ℕ) (reading : Reading) (line : List Char) : Except Failure Reading :=
  if trim line = [] then .ok reading
  else match bracketed (trim line) with
  | some name => do
    require (name ≠ []) (invalid s!"CCD section is empty at line {lineIndex + 1}")
    require ((OrdMap.find? (upper name) reading.sections).isNone)
      (invalid s!"CCD repeats section {debugText (String.ofList (upper name))}")
    require (reading.sections.length < maxSections) (invalid "CCD contains too many sections")
    return { reading with sections := reading.sections ++ [(upper name, [])], current := some (upper name) }
  | none => do
    let (key, value) ← orError (invalid s!"CCD key/value is malformed at line {lineIndex + 1}")
      (splitOnce '=' (trim line))
    require ('=' ∉ value ∧ trim key ≠ []) (invalid s!"CCD key/value is malformed at line {lineIndex + 1}")
    let name ← orError (invalid s!"CCD value appears before a section at line {lineIndex + 1}") reading.current
    let keyCount ← orError (invalid "CCD key count overflow") (checkedAdd reading.keyCount 1)
    require (keyCount ≤ maxKeys) (invalid "CCD contains too many keys")
    let sections ← insertValue reading.sections name (upper (trim key)) (trim value) lineIndex
    return { reading with sections, keyCount }

def parseLines : ℕ → Reading → List (List Char) → Except Failure Reading
  | _, reading, [] => .ok reading
  | lineIndex, reading, line :: rest => do
    parseLines (lineIndex + 1) (← parseLine lineIndex reading line) rest

def parseSections (text : List Char) : Except Failure Sections := do
  return (← parseLines 0 ⟨[], none, 0⟩ (lines text)).sections

/-! ## Values -/

def digitsValue (radix : ℕ) (digits : List Char) : Option ℕ := do
  guard (digits ≠ [])
  let values ← digits.mapM (NumParse.digitValue radix)
  return values.foldl (fun n d => n * radix + d) 0

def withoutPlus (text : List Char) : List Char := if text.head? = some '+' then text.tail else text

def u32FromStrRadix (radix : ℕ) (text : List Char) : Option ℕ :=
  (digitsValue radix (withoutPlus text)).filter (· < 2 ^ 32)

def i32FromStrRadix (radix : ℕ) (text : List Char) : Option ℤ :=
  if text.head? = some '-' then ((digitsValue radix text.tail).filter (· ≤ 2 ^ 31)).map fun n => -(n : ℤ)
  else ((digitsValue radix (withoutPlus text)).filter (· < 2 ^ 31)).map fun n => (n : ℤ)

/-- A number, hexadecimal after `0x`. -/
def radixValue {α : Type} (fromStrRadix : ℕ → List Char → Option α) (value : List Char) : Option α :=
  match "0x".toList.isPrefixOf? value with
  | some hex => fromStrRadix 16 hex
  | none => fromStrRadix 10 value

def requiredValue (pairs : Pairs) (key : String) : Except Failure (List Char) :=
  orError (invalid s!"CCD is missing {key}") (OrdMap.find? key.toList pairs)

def requiredU32 (pairs : Pairs) (key : String) : Except Failure ℕ := do
  let value ← requiredValue pairs key
  orError (invalid s!"CCD {key} is invalid") (radixValue u32FromStrRadix value)

def requiredI32 (pairs : Pairs) (key : String) : Except Failure ℤ := do
  let value ← requiredValue pairs key
  orError (invalid s!"CCD {key} is invalid") (radixValue i32FromStrRadix value)

/-! ## The table -/

/-- The number of entries that `[Disc]` declares. -/
def declaredEntries (sections : Sections) : Except Failure ℕ := do
  let disc ← orError (invalid "CCD is missing [Disc]") (OrdMap.find? "DISC".toList sections)
  let entries ← requiredU32 disc "TOCENTRIES"
  let unsupported := invalid "CCD disc semantics are unsupported or malformed"
  require (3 ≤ entries ∧ entries ≤ 102) unsupported
  let sessions ← requiredU32 disc "SESSIONS"
  require (sessions = 1) unsupported
  let scrambled ← requiredU32 disc "DATATRACKSSCRAMBLED"
  require (scrambled = 0) unsupported
  return entries

/-- The numbers that the names of the sections spell. -/
def presentEntries (sections : Sections) : List ℕ :=
  sections.filterMap fun entry => ("ENTRY ".toList.isPrefixOf? entry.1).bind (u32FromStrRadix 10)

def checkEntry (pairs : Pairs) (entry : ℕ) : Except Failure Unit := do
  let unsupported := invalid s!"CCD TOC entry {entry} is unsupported or malformed"
  let point ← requiredU32 pairs "POINT"
  let session ← requiredU32 pairs "SESSION"
  require (session = 1) unsupported
  let adr ← requiredU32 pairs "ADR"
  require (adr ≤ 255) unsupported
  let control ← requiredU32 pairs "CONTROL"
  require (control ≤ 255) unsupported
  let minutes ← requiredU32 pairs "PMIN"
  require (minutes ≤ 255) unsupported
  let seconds ← requiredU32 pairs "PSEC"
  require (seconds ≤ 255) unsupported
  require (1 ≤ point ∧ point ≤ 99 ∨ 0xa0 ≤ point ∧ point ≤ 0xa2) unsupported
  let _ ← requiredI32 pairs "PLBA"

def entryName (entry : ℕ) : List Char := "ENTRY ".toList ++ Nat.toDigits 10 entry

def checkEntries (sections : Sections) : List ℕ → Except Failure Unit
  | [] => .ok ()
  | entry :: rest => do
    let pairs ← orError (.panic "declared CCD entry section was checked above")
      (OrdMap.find? (entryName entry) sections)
    checkEntry pairs entry
    checkEntries sections rest

def referencesOfText (path : FsPath) (text : List Char) : Except Failure (List MediaReference) := do
  let sections ← parseSections text
  let entries ← declaredEntries sections
  require (∀ entry < entries, entry ∈ presentEntries sections)
    (invalid "CCD does not contain every declared TOC entry")
  checkEntries sections (List.range entries)
  let (image, subchannel) ← companionNames path
  return [⟨image⟩, ⟨subchannel⟩]

/-- A call whose failure is an error that is returned. -/
def io {σ α : Type} (call : Call σ α) : EStateM Failure σ α := mapError Failure.io call

section Files

variable {σ Handle : Type} (fs : FileSystem σ Handle)

def references (path : FsPath) : EStateM Failure σ (List MediaReference) := do
  let bytes ← io (readDescriptor fs path "CCD" maxDescriptorBytes)
  let text ← io (fromExcept (descriptorText bytes "CCD"))
  fromExcept (referencesOfText path text)

def validateGraph (path : FsPath) : EStateM Failure σ (List MediaReference) := do
  let found ← references fs path
  let _ ← io (validateReferences fs path "CCD" found)
  match found with
  | image :: subchannel :: _ => do
    let root := parentDirectory path
    let imageFile ← io (openRegularMemberNoFollow fs root image.declaredName)
    let imageSize := (← io (fs.fileMetadata imageFile)).len
    demand (imageSize ≤ 0x7fffffff ∧ imageSize % 2352 = 0)
      (invalid "CCD IMG size must be at most 2 GiB and divisible by 2352")
    let expectedSubchannel ← orThrow (invalid "CCD SUB size overflow")
      (if imageSize / 2352 * 96 < 2 ^ 64 then some (imageSize / 2352 * 96) else none)
    let subchannelFile ← io (openRegularMemberNoFollow fs root subchannel.declaredName)
    demand ((← io (fs.fileMetadata subchannelFile)).len = expectedSubchannel)
      (invalid "CCD SUB size does not match the IMG sector count")
    return found
  | _ => throw (.panic "index out of bounds")

theorem validateGraph_portable {path : FsPath} {found : List MediaReference} {s s' : σ}
    (h : validateGraph fs path s = .ok found s') :
    ∀ reference ∈ found, isPortableRelativeMember reference.declaredName = true := by
  obtain ⟨references, t, -, hrun⟩ := bind_run_eq_ok.mp h
  obtain ⟨paths, t', hvalid, hrun⟩ := bind_run_eq_ok.mp hrun
  have hportable := validateReferences_portable fs (mapError_run_eq_ok.mp hvalid)
  rcases references with - | ⟨image, - | ⟨subchannel, rest⟩⟩
  · cases hrun
  · cases hrun
  · obtain ⟨imageFile, t₁, -, hrun⟩ := bind_run_eq_ok.mp hrun
    obtain ⟨metadata, t₂, -, hrun⟩ := bind_run_eq_ok.mp hrun
    obtain ⟨-, hrun⟩ := demand_bind_run_eq_ok.mp hrun
    obtain ⟨expectedSubchannel, t₃, -, hrun⟩ := bind_run_eq_ok.mp hrun
    obtain ⟨subchannelFile, t₄, -, hrun⟩ := bind_run_eq_ok.mp hrun
    obtain ⟨metadata', t₅, -, hrun⟩ := bind_run_eq_ok.mp hrun
    obtain ⟨-, hrun⟩ := demand_bind_run_eq_ok.mp hrun
    cases hrun
    exact hportable

end Files

/-! ## Sections without a state -/

/-- A line by itself. -/
inductive Line where
  | blank
  | section (name : List Char)
  | pair (key value : List Char)
  | malformed

def Line.ofText (line : List Char) : Line :=
  if trim line = [] then .blank
  else match bracketed (trim line) with
  | some [] => .malformed
  | some (c :: name) => .section (upper (c :: name))
  | none =>
    match splitOnce '=' (trim line) with
    | none => .malformed
    | some (key, value) =>
      if '=' ∉ value ∧ trim key ≠ [] then .pair (upper (trim key)) (trim value) else .malformed

/-- The values before the first section, and the sections with their values. -/
def group : List Line → Option (Pairs × Sections)
  | [] => some ([], [])
  | .blank :: rest => group rest
  | .section name :: rest => (group rest).map fun (pairs, sections) => ([], (name, pairs) :: sections)
  | .pair key value :: rest => (group rest).map fun (pairs, sections) => ((key, value) :: pairs, sections)
  | .malformed :: _ => none

def keyTotal (sections : Sections) : ℕ := (sections.map fun entry => entry.2.length).sum

/-- No name repeats, no key repeats in its section, and there are not too many of them. -/
structure Legal (sections : Sections) : Prop where
  names : (sections.map Prod.fst).Nodup
  keys : ∀ entry ∈ sections, (entry.2.map Prod.fst).Nodup
  count : sections.length ≤ maxSections
  total : keyTotal sections ≤ maxKeys

theorem find?_eq_none_iff {α : Type} {entries : List (List Char × α)} {name : List Char} :
    OrdMap.find? name entries = none ↔ name ∉ entries.map Prod.fst := by
  induction entries with
  | nil => simp
  | cons entry entries ih =>
    rw [OrdMap.find?_cons, List.map_cons, List.mem_cons]
    split_ifs with h
    · simp [h]
    · rw [ih]
      simp [h]

theorem find?_eq_some_iff {α : Type} {entries : List (List Char × α)} {name : List Char} {a : α}
    (h : (entries.map Prod.fst).Nodup) : OrdMap.find? name entries = some a ↔ (name, a) ∈ entries := by
  induction entries with
  | nil => simp
  | cons entry entries ih =>
    rw [List.map_cons, List.nodup_cons] at h
    rw [OrdMap.find?_cons, List.mem_cons]
    by_cases hname : name = entry.1
    · have hnot : (name, a) ∉ entries := fun hin => h.1 (hname ▸ List.mem_map_of_mem hin)
      rw [if_pos hname, Option.some_inj, Prod.ext_iff]
      refine ⟨fun heq => .inl ⟨hname, heq.symm⟩, ?_⟩
      rintro (⟨-, heq⟩ | hin)
      · exact heq.symm
      · exact absurd hin hnot
    · rw [if_neg hname, ih h.2]
      simp [hname, Prod.ext_iff]

/-! ## The loop over the lines -/

/-- The last section is the current one, and the keys have been counted. -/
structure Open (reading : Reading) (before : Sections) (name : List Char) (pairs : Pairs) : Prop where
  sections : reading.sections = before ++ [(name, pairs)]
  current : reading.current = some name
  counted : reading.keyCount = keyTotal reading.sections
  legal : Legal reading.sections

theorem keyTotal_append (a b : Sections) : keyTotal (a ++ b) = keyTotal a + keyTotal b := by
  simp [keyTotal]

theorem Legal.of_append {before after : Sections} (h : Legal (before ++ after)) : Legal before where
  names := by
    have hnames := h.names
    rw [List.map_append] at hnames
    exact hnames.of_append_left
  keys entry hentry := h.keys entry (List.mem_append_left _ hentry)
  count := by
    have hcount := h.count
    rw [List.length_append] at hcount
    omega
  total := by
    have htotal := h.total
    rw [keyTotal_append] at htotal
    omega

def beginSection (reading : Reading) (name : List Char) : Except Failure Reading := do
  require ((OrdMap.find? name reading.sections).isNone)
    (invalid s!"CCD repeats section {debugText (String.ofList name)}")
  require (reading.sections.length < maxSections) (invalid "CCD contains too many sections")
  return { reading with sections := reading.sections ++ [(name, [])], current := some name }

def addPair (lineIndex : ℕ) (reading : Reading) (key value : List Char) : Except Failure Reading := do
  let name ← orError (invalid s!"CCD value appears before a section at line {lineIndex + 1}") reading.current
  let keyCount ← orError (invalid "CCD key count overflow") (checkedAdd reading.keyCount 1)
  require (keyCount ≤ maxKeys) (invalid "CCD contains too many keys")
  let sections ← insertValue reading.sections name key value lineIndex
  return { reading with sections, keyCount }

theorem parseLine_cases (lineIndex : ℕ) (reading : Reading) (line : List Char) :
    match Line.ofText line with
    | .blank => parseLine lineIndex reading line = .ok reading
    | .section name => parseLine lineIndex reading line = beginSection reading name
    | .pair key value => parseLine lineIndex reading line = addPair lineIndex reading key value
    | .malformed => ∃ e, parseLine lineIndex reading line = .error (.io e) := by
  unfold parseLine Line.ofText
  by_cases hblank : trim line = []
  · rw [if_pos hblank, if_pos hblank]
  rw [if_neg hblank, if_neg hblank]
  rcases bracketed (trim line) with - | - | ⟨c, name⟩
  · rcases splitOnce '=' (trim line) with - | ⟨key, value⟩
    · exact ⟨_, rfl⟩
    by_cases hgood : '=' ∉ value ∧ trim key ≠ []
    · simp only [if_pos hgood, orError, ok_bind, require]
      rfl
    · simp only [if_neg hgood, orError, ok_bind, require]
      exact ⟨_, rfl⟩
  · exact ⟨_, rfl⟩
  · simp only [require, ne_eq, reduceCtorEq, not_false_eq_true, if_true, ok_bind]
    rfl

theorem Legal.of_front {before rest : Sections} {name : List Char} {pairs front : Pairs}
    (h : Legal (before ++ (name, pairs ++ front) :: rest)) : Legal (before ++ [(name, pairs)]) := by
  have hshort : Legal (before ++ [(name, pairs ++ front)]) := by
    rw [List.append_cons] at h
    exact h.of_append
  refine ⟨?_, ?_, ?_, ?_⟩
  · have hnames := hshort.names
    rw [List.map_append] at hnames ⊢
    exact hnames
  · intro entry hentry
    rcases List.mem_append.mp hentry with hold | hlast
    · exact hshort.keys entry (List.mem_append_left _ hold)
    · have hkeys := hshort.keys (name, pairs ++ front) (by simp)
      rw [List.map_append] at hkeys
      rw [List.mem_singleton.mp hlast]
      exact hkeys.of_append_left
  · have hcount := hshort.count
    rw [List.length_append] at hcount ⊢
    exact hcount
  · have htotal := hshort.total
    simp only [keyTotal, List.map_append, List.sum_append, List.map_cons, List.map_nil, List.sum_cons, List.sum_nil,
      List.length_append] at htotal ⊢
    omega

theorem keyTotal_cons (entry : List Char × Pairs) (sections : Sections) :
    keyTotal (entry :: sections) = entry.2.length + keyTotal sections := by
  simp [keyTotal]

section Open

variable {reading : Reading} {before : Sections} {name : List Char} {pairs : Pairs}

theorem legal_begin_iff {sections : Sections} (h : Legal sections) (name : List Char) :
    Legal (sections ++ [(name, [])]) ↔
      name ∉ sections.map Prod.fst ∧ sections.length < maxSections := by
  constructor
  · intro hlegal
    have hnames := hlegal.names
    have hcount := hlegal.count
    rw [List.map_append, List.nodup_append] at hnames
    rw [List.length_append] at hcount
    refine ⟨fun hin => hnames.2.2 name hin name (by simp) rfl, ?_⟩
    simp only [List.length_cons, List.length_nil] at hcount
    omega
  · rintro ⟨hnew, hcount⟩
    refine ⟨?_, ?_, ?_, ?_⟩
    · rw [List.map_append, List.map_cons, List.map_nil, List.nodup_append_comm]
      exact List.nodup_cons.mpr ⟨hnew, h.names⟩
    · intro entry hentry
      rcases List.mem_append.mp hentry with hold | hnewEntry
      · exact h.keys entry hold
      · rw [List.mem_singleton.mp hnewEntry]
        exact List.nodup_nil
    · rw [List.length_append]
      exact hcount
    · rw [keyTotal_append]
      exact h.total

theorem beginSection_ok {sections : Sections} (hsections : reading.sections = sections)
    (hcounted : reading.keyCount = keyTotal sections) (hlegal : Legal (sections ++ [(name, [])]))
    (h : Legal sections) :
    ∃ next, beginSection reading name = .ok next ∧ Open next sections name [] := by
  obtain ⟨hnew, hcount⟩ := (legal_begin_iff h name).mp hlegal
  subst hsections
  refine ⟨⟨reading.sections ++ [(name, [])], some name, reading.keyCount⟩, ?_, rfl, rfl, ?_, hlegal⟩
  · rw [beginSection, (find?_eq_none_iff).mpr hnew]
    simp only [require, Option.isNone_none, if_true, ok_bind, if_pos hcount]
    rfl
  · rw [hcounted, keyTotal_append]
    rfl

theorem beginSection_error {sections : Sections} (hsections : reading.sections = sections)
    (hlegal : ¬Legal (sections ++ [(name, [])])) (h : Legal sections) :
    ∃ e, beginSection reading name = .error (.io e) := by
  subst hsections
  rw [legal_begin_iff h, not_and_or, not_not] at hlegal
  unfold beginSection
  by_cases hnew : name ∉ reading.sections.map Prod.fst
  · have hcount := hlegal.resolve_left hnew
    rw [(find?_eq_none_iff).mpr hnew]
    simp only [require, Option.isNone_none, if_true, ok_bind, if_neg hcount]
    exact ⟨_, rfl⟩
  · have hsome : (OrdMap.find? name reading.sections).isNone = false := by
      rw [Option.isNone_eq_false_iff, Option.isSome_iff_ne_none, ne_eq, find?_eq_none_iff]
      exact hnew
    simp only [require, hsome, Bool.false_eq_true, if_false]
    exact ⟨_, rfl⟩

namespace Open

theorem insertValue_eq (h : Open reading before name pairs) (key value : List Char) (lineIndex : ℕ) :
    insertValue reading.sections name key value lineIndex =
      if key ∉ pairs.map Prod.fst then .ok (before ++ [(name, pairs ++ [(key, value)])])
      else .error (invalid s!"CCD repeats a key at line {lineIndex + 1}") := by
  have hnames := h.legal.names
  have hfind : OrdMap.find? name reading.sections = some pairs := by
    rw [find?_eq_some_iff hnames, h.sections]
    simp
  rw [h.sections, List.map_append, List.nodup_append] at hnames
  have hbefore : (before.map fun entry => if entry.1 = name then (name, entry.2 ++ [(key, value)]) else entry)
      = before := by
    refine (List.map_congr_left fun entry hentry => if_neg ?_).trans (List.map_id before)
    exact hnames.2.2 entry.1 (List.mem_map_of_mem hentry) name (by simp)
  rw [insertValue, hfind, h.sections, List.map_append, hbefore]
  by_cases hkey : key ∉ pairs.map Prod.fst
  · rw [if_pos hkey]
    simp only [orError, ok_bind, require, (find?_eq_none_iff).mpr hkey, Option.isNone_none, if_true, List.map_cons,
      List.map_nil]
    rfl
  · have hsome : (OrdMap.find? key pairs).isNone = false := by
      rw [Option.isNone_eq_false_iff, Option.isSome_iff_ne_none, ne_eq, find?_eq_none_iff]
      exact hkey
    rw [if_neg hkey]
    simp only [orError, ok_bind, require, hsome, Bool.false_eq_true, if_false]
    rfl

theorem legal_add_iff (h : Open reading before name pairs) (key value : List Char) :
    Legal (before ++ [(name, pairs ++ [(key, value)])]) ↔
      key ∉ pairs.map Prod.fst ∧ reading.keyCount + 1 ≤ maxKeys := by
  have hlegal := h.sections ▸ h.legal
  have hcounted : reading.keyCount = keyTotal before + pairs.length := by
    rw [h.counted, h.sections, keyTotal_append, keyTotal_cons]
    rfl
  have htotal : keyTotal (before ++ [(name, pairs ++ [(key, value)])]) = reading.keyCount + 1 := by
    rw [hcounted, keyTotal_append, keyTotal_cons, List.length_append]
    rfl
  have hkeys : ((pairs ++ [(key, value)]).map Prod.fst).Nodup ↔ key ∉ pairs.map Prod.fst := by
    have hpairs := hlegal.keys (name, pairs) (by simp)
    rw [List.map_append, List.map_cons, List.map_nil, List.nodup_append_comm]
    exact List.nodup_cons.trans (and_iff_left hpairs)
  constructor
  · intro hnext
    exact ⟨hkeys.mp (hnext.keys (name, pairs ++ [(key, value)]) (by simp)), htotal ▸ hnext.total⟩
  · rintro ⟨hkey, hcount⟩
    refine ⟨?_, ?_, ?_, ?_⟩
    · have hnames := hlegal.names
      rw [List.map_append] at hnames ⊢
      exact hnames
    · intro entry hentry
      rcases List.mem_append.mp hentry with hold | hlast
      · exact hlegal.keys entry (List.mem_append_left _ hold)
      · rw [List.mem_singleton.mp hlast]
        exact hkeys.mpr hkey
    · have hlength := hlegal.count
      rw [List.length_append] at hlength ⊢
      exact hlength
    · rw [htotal]
      exact hcount

theorem addPair_ok (h : Open reading before name pairs) {key value : List Char} (lineIndex : ℕ)
    (hnext : Legal (before ++ [(name, pairs ++ [(key, value)])])) :
    ∃ next, addPair lineIndex reading key value = .ok next ∧
      Open next before name (pairs ++ [(key, value)]) := by
  obtain ⟨hkey, hcount⟩ := (h.legal_add_iff key value).mp hnext
  have hadd : checkedAdd reading.keyCount 1 = some (reading.keyCount + 1) := by
    have hmax : maxKeys = 4096 := rfl
    exact checkedAdd_eq_some.mpr ⟨by omega, rfl⟩
  refine ⟨⟨before ++ [(name, pairs ++ [(key, value)])], some name, reading.keyCount + 1⟩, ?_, rfl, rfl, ?_, hnext⟩
  · rw [addPair, h.current, hadd]
    simp only [orError, ok_bind, require, if_pos hcount, h.insertValue_eq, if_pos hkey]
    rfl
  · rw [h.counted, h.sections]
    simp only [keyTotal_append, keyTotal_cons, List.length_append, List.length_cons, List.length_nil]
    omega

theorem addPair_error (h : Open reading before name pairs) {key value : List Char} (lineIndex : ℕ)
    (hnext : ¬Legal (before ++ [(name, pairs ++ [(key, value)])])) :
    ∃ e, addPair lineIndex reading key value = .error (.io e) := by
  rw [h.legal_add_iff, not_and_or, not_not] at hnext
  have hadd : checkedAdd reading.keyCount 1 = some (reading.keyCount + 1) := by
    have hmax : maxKeys = 4096 := rfl
    have htotal := h.legal.total
    rw [← h.counted] at htotal
    exact checkedAdd_eq_some.mpr ⟨by omega, rfl⟩
  rw [addPair, h.current, hadd]
  simp only [orError, ok_bind, require]
  by_cases hcount : reading.keyCount + 1 ≤ maxKeys
  · have hkey := hnext.resolve_right (not_not.mpr hcount)
    simp only [if_pos hcount, ok_bind, h.insertValue_eq, if_neg (not_not.mpr hkey)]
    exact ⟨_, rfl⟩
  · rw [if_neg hcount]
    exact ⟨_, rfl⟩

theorem parseLines_cases (ls : List (List Char)) :
    ∀ {reading : Reading} {before : Sections} {name : List Char} {pairs : Pairs} (lineIndex : ℕ),
      Open reading before name pairs →
      (∃ out front rest, parseLines lineIndex reading ls = .ok out ∧
        group (ls.map Line.ofText) = some (front, rest) ∧
        out.sections = before ++ (name, pairs ++ front) :: rest ∧ Legal out.sections) ∨
      (∃ e, parseLines lineIndex reading ls = .error (.io e)) ∧
        ∀ front rest, group (ls.map Line.ofText) = some (front, rest) →
          ¬Legal (before ++ (name, pairs ++ front) :: rest) := by
  induction ls with
  | nil =>
    intro reading before name pairs lineIndex h
    exact .inl ⟨reading, [], [], rfl, rfl, by rw [h.sections, List.append_nil], h.legal⟩
  | cons line ls ih =>
    intro reading before name pairs lineIndex h
    have hcases := parseLine_cases lineIndex reading line
    rw [List.map_cons, parseLines]
    rcases hline : Line.ofText line with - | newName | ⟨key, value⟩ | - <;> rw [hline] at hcases
    · rw [hcases]
      exact ih (lineIndex + 1) h
    · rw [hcases]
      by_cases hnext : Legal (before ++ [(name, pairs)] ++ [(newName, [])])
      · obtain ⟨next, hbegin, hopen⟩ := beginSection_ok h.sections (h.sections ▸ h.counted) hnext
          (h.sections ▸ h.legal)
        rw [hbegin]
        rcases ih (lineIndex + 1) hopen with ⟨out, front, rest, hrun, hgroup, hout, hlegal⟩ | ⟨herror, hnone⟩
        · refine .inl ⟨out, [], (newName, front) :: rest, hrun, ?_, ?_, hlegal⟩
          · rw [group, hgroup]
            rfl
          · rw [hout, List.append_nil, List.nil_append, List.append_assoc]
            rfl
        · refine .inr ⟨herror, fun front rest hgroup => ?_⟩
          rw [group, Option.map_eq_some_iff] at hgroup
          obtain ⟨⟨front', rest'⟩, hgroup, heq⟩ := hgroup
          obtain ⟨rfl, rfl⟩ := Prod.mk.inj heq
          have hnot := hnone front' rest' hgroup
          rw [List.nil_append, List.append_assoc] at hnot
          rw [List.append_nil]
          exact hnot
      · obtain ⟨e, herror⟩ := beginSection_error h.sections hnext (h.sections ▸ h.legal)
        rw [herror]
        refine .inr ⟨⟨e, rfl⟩, fun front rest hgroup hlegal => hnext ?_⟩
        rw [group, Option.map_eq_some_iff] at hgroup
        obtain ⟨⟨front', rest'⟩, -, heq⟩ := hgroup
        obtain ⟨rfl, rfl⟩ := Prod.mk.inj heq
        rw [List.append_nil, List.append_cons, ← List.nil_append front'] at hlegal
        exact hlegal.of_front
    · rw [hcases]
      by_cases hnext : Legal (before ++ [(name, pairs ++ [(key, value)])])
      · obtain ⟨next, hadd, hopen⟩ := h.addPair_ok lineIndex hnext
        rw [hadd]
        rcases ih (lineIndex + 1) hopen with ⟨out, front, rest, hrun, hgroup, hout, hlegal⟩ | ⟨herror, hnone⟩
        · refine .inl ⟨out, (key, value) :: front, rest, hrun, ?_, ?_, hlegal⟩
          · rw [group, hgroup]
            rfl
          · rw [hout, List.append_assoc]
            rfl
        · refine .inr ⟨herror, fun front rest hgroup => ?_⟩
          rw [group, Option.map_eq_some_iff] at hgroup
          obtain ⟨⟨front', rest'⟩, hgroup, heq⟩ := hgroup
          obtain ⟨rfl, rfl⟩ := Prod.mk.inj heq
          rw [List.append_cons pairs]
          exact hnone front' rest' hgroup
      · obtain ⟨e, herror⟩ := h.addPair_error lineIndex hnext
        rw [herror]
        refine .inr ⟨⟨e, rfl⟩, fun front rest hgroup hlegal => hnext ?_⟩
        rw [group, Option.map_eq_some_iff] at hgroup
        obtain ⟨⟨front', rest'⟩, -, heq⟩ := hgroup
        obtain ⟨rfl, rfl⟩ := Prod.mk.inj heq
        rw [List.append_cons pairs] at hlegal
        exact hlegal.of_front
    · obtain ⟨e, herror⟩ := hcases
      rw [herror]
      exact .inr ⟨⟨e, rfl⟩, fun front rest hgroup => by cases hgroup⟩

end Open

end Open

theorem parseLines_start (ls : List (List Char)) : ∀ lineIndex : ℕ,
    (∃ out rest, parseLines lineIndex ⟨[], none, 0⟩ ls = .ok out ∧
      group (ls.map Line.ofText) = some ([], rest) ∧ out.sections = rest ∧ Legal rest) ∨
    (∃ e, parseLines lineIndex ⟨[], none, 0⟩ ls = .error (.io e)) ∧
      ∀ rest, group (ls.map Line.ofText) = some ([], rest) → ¬Legal rest := by
  have hempty : Legal [] := ⟨List.nodup_nil, by simp, Nat.zero_le _, Nat.zero_le _⟩
  induction ls with
  | nil =>
    intro lineIndex
    exact .inl ⟨_, [], rfl, rfl, rfl, hempty⟩
  | cons line ls ih =>
    intro lineIndex
    have hcases := parseLine_cases lineIndex ⟨[], none, 0⟩ line
    rw [List.map_cons, parseLines]
    rcases hline : Line.ofText line with - | name | ⟨key, value⟩ | - <;> rw [hline] at hcases
    · rw [hcases]
      exact ih (lineIndex + 1)
    · have hnext : Legal ([] ++ [(name, [])]) := (legal_begin_iff hempty name).mpr ⟨by simp, by decide⟩
      have hstart : keyTotal [] = 0 := rfl
      obtain ⟨next, hbegin, hopen⟩ :=
        @beginSection_ok ⟨[], none, 0⟩ name [] rfl hstart.symm hnext hempty
      rw [hcases, hbegin]
      rcases Open.parseLines_cases ls (lineIndex + 1) hopen with
        ⟨out, front, rest, hrun, hgroup, hout, hlegal⟩ | ⟨herror, hnone⟩
      · refine .inl ⟨out, (name, front) :: rest, hrun, ?_, hout, ?_⟩
        · rw [group, hgroup]
          rfl
        · rw [hout] at hlegal
          exact hlegal
      · refine .inr ⟨herror, fun rest hgroup => ?_⟩
        rw [group, Option.map_eq_some_iff] at hgroup
        obtain ⟨⟨front', rest'⟩, hgroup, heq⟩ := hgroup
        obtain ⟨-, rfl⟩ := Prod.mk.inj heq
        exact hnone front' rest' hgroup
    · rw [hcases]
      refine .inr ⟨⟨_, rfl⟩, fun rest hgroup => ?_⟩
      rw [group, Option.map_eq_some_iff] at hgroup
      obtain ⟨⟨front', rest'⟩, -, heq⟩ := hgroup
      cases heq
    · obtain ⟨e, herror⟩ := hcases
      rw [herror]
      exact .inr ⟨⟨e, rfl⟩, fun rest hgroup => by cases hgroup⟩

theorem parseSections_eq_ok_iff {text : List Char} {sections : Sections} :
    parseSections text = .ok sections ↔
      group ((lines text).map Line.ofText) = some ([], sections) ∧ Legal sections := by
  rw [parseSections]
  rcases parseLines_start (lines text) 0 with ⟨out, rest, hrun, hgroup, hout, hlegal⟩ | ⟨⟨e, herror⟩, hnone⟩
  · rw [hrun, hgroup, Option.some_inj, Prod.mk.injEq]
    constructor
    · intro h
      have hsections : out.sections = sections := Except.ok.inj h
      rw [← hsections, hout]
      exact ⟨⟨rfl, rfl⟩, hlegal⟩
    · rintro ⟨⟨-, hrest⟩, -⟩
      exact congrArg Except.ok (hout.trans hrest)
  · rw [herror]
    refine ⟨fun h => (by cases h), fun ⟨hgroup, hlegal⟩ => absurd hlegal (hnone sections hgroup)⟩

theorem parseSections_error {text : List Char} {failure : Failure} (h : parseSections text = .error failure) :
    ∃ e, failure = .io e := by
  rw [parseSections] at h
  rcases parseLines_start (lines text) 0 with ⟨out, rest, hrun, -⟩ | ⟨⟨e, herror⟩, -⟩
  · rw [hrun] at h
    cases h
  · rw [herror] at h
    exact ⟨e, (Except.error.inj h).symm⟩

/-! ## Numerals -/

theorem digitValue_of_isDigit {c : Char} (h : c.isDigit = true) :
    NumParse.digitValue 10 c = some (c.toNat - 48) := by
  have hrange : 48 ≤ c.toNat ∧ c.toNat ≤ 57 := by
    rw [Char.isDigit, Bool.and_eq_true, decide_eq_true_eq, decide_eq_true_eq] at h
    exact h
  rw [NumParse.digitValue, hexValue, if_pos hrange, Option.filter_some, if_pos]
  have hlt : c.toNat - 48 < 10 := by omega
  exact decide_eq_true hlt

theorem mapM_digitValue {digits : List Char} (h : ∀ c ∈ digits, c.isDigit = true) :
    digits.mapM (NumParse.digitValue 10) = some (digits.map fun c => c.toNat - 48) := by
  induction digits with
  | nil => rfl
  | cons c digits ih =>
    rw [List.forall_mem_cons] at h
    rw [List.mapM_cons, digitValue_of_isDigit h.1, ih h.2]
    rfl

theorem u32FromStrRadix_toDigits {n : ℕ} (h : n < 2 ^ 32) : u32FromStrRadix 10 (Nat.toDigits 10 n) = some n := by
  have hdigits : ∀ c ∈ Nat.toDigits 10 n, c.isDigit = true := fun c hc =>
    Nat.isDigit_of_mem_toDigits (by decide) (by decide) hc
  have hplus : withoutPlus (Nat.toDigits 10 n) = Nat.toDigits 10 n := by
    refine if_neg fun hhead => ?_
    have hplus := hdigits '+' (List.mem_of_head? hhead)
    revert hplus
    decide
  have hvalue : digitsValue 10 (Nat.toDigits 10 n) = some n := by
    have hfold : (Nat.toDigits 10 n |>.map fun c => c.toNat - 48).foldl (fun n d => n * 10 + d) 0 = n := by
      rw [List.foldl_map]
      conv_rhs => rw [← Nat.ofDigitChars_ten_toDigits (n := n), Nat.ofDigitChars_eq_foldl]
      simp only [Nat.mul_comm, Char.reduceToNat]
    rw [digitsValue, mapM_digitValue hdigits]
    simp only [guard, if_pos Nat.toDigits_ne_nil]
    exact congrArg some hfold
  rw [u32FromStrRadix, hplus, hvalue, Option.filter_some, if_pos]
  exact decide_eq_true h

theorem mem_presentEntries {sections : Sections} {entry : ℕ} {pairs : Pairs} (hentry : entry < 2 ^ 32)
    (h : OrdMap.find? (entryName entry) sections = some pairs) : entry ∈ presentEntries sections := by
  refine List.mem_filterMap.mpr ⟨(entryName entry, pairs), OrdMap.mem_of_find? h, ?_⟩
  have hcut : "ENTRY ".toList.isPrefixOf? (entryName entry) = some (Nat.toDigits 10 entry) := by
    delta entryName
    rw [isPrefixOf?_eq, if_pos List.take_left, List.drop_left]
  rw [hcut]
  exact u32FromStrRadix_toDigits hentry

/-! ## Complete tables -/

def number (pairs : Pairs) (key : String) : Option ℕ :=
  (OrdMap.find? key.toList pairs).bind (radixValue u32FromStrRadix)

def signedNumber (pairs : Pairs) (key : String) : Option ℤ :=
  (OrdMap.find? key.toList pairs).bind (radixValue i32FromStrRadix)

/-- One session, no scrambling, and a number of entries that a disc can have. -/
structure Declares (sections : Sections) (entries : ℕ) : Prop where
  section_there : ∃ disc, OrdMap.find? "DISC".toList sections = some disc ∧
    number disc "TOCENTRIES" = some entries ∧ number disc "SESSIONS" = some 1 ∧
    number disc "DATATRACKSSCRAMBLED" = some 0
  at_least : 3 ≤ entries
  at_most : entries ≤ 102

structure WellFormed (pairs : Pairs) : Prop where
  session : number pairs "SESSION" = some 1
  adr : ∃ n ≤ 255, number pairs "ADR" = some n
  control : ∃ n ≤ 255, number pairs "CONTROL" = some n
  minutes : ∃ n ≤ 255, number pairs "PMIN" = some n
  seconds : ∃ n ≤ 255, number pairs "PSEC" = some n
  point : ∃ n, (1 ≤ n ∧ n ≤ 99 ∨ 0xa0 ≤ n ∧ n ≤ 0xa2) ∧ number pairs "POINT" = some n
  start : (signedNumber pairs "PLBA").isSome

/-- An entry has its section, and the values are good. -/
def Described (sections : Sections) (entry : ℕ) : Prop :=
  ∃ pairs, OrdMap.find? (entryName entry) sections = some pairs ∧ WellFormed pairs

def Complete (text : List Char) : Prop :=
  ∃ sections entries, group ((lines text).map Line.ofText) = some ([], sections) ∧ Legal sections ∧
    Declares sections entries ∧ ∀ entry < entries, Described sections entry

/-- Every declared entry has a section whose name spells its number, but the first that is not spelled in the
canonical way comes behind good entries only. -/
def Respelled (text : List Char) : Prop :=
  ∃ sections entries, group ((lines text).map Line.ofText) = some ([], sections) ∧ Legal sections ∧
    Declares sections entries ∧ (∀ entry < entries, entry ∈ presentEntries sections) ∧
    ∃ entry < entries, OrdMap.find? (entryName entry) sections = none ∧ ∀ j < entry, Described sections j

theorem requiredU32_eq_ok_iff {pairs : Pairs} {key : String} {n : ℕ} :
    requiredU32 pairs key = .ok n ↔ number pairs key = some n := by
  rw [requiredU32, requiredValue, number, bind_eq_ok, Option.bind_eq_some_iff]
  simp only [orError_eq_ok]

theorem requiredI32_eq_ok_iff {pairs : Pairs} {key : String} {n : ℤ} :
    requiredI32 pairs key = .ok n ↔ signedNumber pairs key = some n := by
  rw [requiredI32, requiredValue, signedNumber, bind_eq_ok, Option.bind_eq_some_iff]
  simp only [orError_eq_ok]

theorem declaredEntries_eq_ok_iff {sections : Sections} {entries : ℕ} :
    declaredEntries sections = .ok entries ↔ Declares sections entries := by
  simp only [declaredEntries, bind_eq_ok, orError_eq_ok, requiredU32_eq_ok_iff, require_eq_ok, exists_const]
  constructor
  · rintro ⟨disc, hdisc, n, hn, ⟨hlow, hhigh⟩, sessions, hsessions, rfl, scrambled, hscrambled, rfl, heq⟩
    cases heq
    exact ⟨⟨disc, hdisc, hn, hsessions, hscrambled⟩, hlow, hhigh⟩
  · rintro ⟨⟨disc, hdisc, hn, hsessions, hscrambled⟩, hlow, hhigh⟩
    exact ⟨disc, hdisc, entries, hn, ⟨hlow, hhigh⟩, 1, hsessions, rfl, 0, hscrambled, rfl, rfl⟩

theorem checkEntry_eq_ok_iff {pairs : Pairs} {entry : ℕ} {u : Unit} :
    checkEntry pairs entry = .ok u ↔ WellFormed pairs := by
  simp only [checkEntry, bind_eq_ok, requiredU32_eq_ok_iff, requiredI32_eq_ok_iff, require_eq_ok, exists_const]
  constructor
  · rintro ⟨point, hpoint, session, hsession, rfl, adr, hadr, hadr', control, hcontrol, hcontrol', minutes, hminutes,
      hminutes', seconds, hseconds, hseconds', hpoint', start, hstart, -⟩
    exact ⟨hsession, ⟨adr, hadr', hadr⟩, ⟨control, hcontrol', hcontrol⟩, ⟨minutes, hminutes', hminutes⟩,
      ⟨seconds, hseconds', hseconds⟩, ⟨point, hpoint', hpoint⟩, Option.isSome_iff_exists.mpr ⟨start, hstart⟩⟩
  · rintro ⟨hsession, ⟨adr, hadr', hadr⟩, ⟨control, hcontrol', hcontrol⟩, ⟨minutes, hminutes', hminutes⟩,
      ⟨seconds, hseconds', hseconds⟩, ⟨point, hpoint', hpoint⟩, hstart⟩
    obtain ⟨start, hstart⟩ := Option.isSome_iff_exists.mp hstart
    exact ⟨point, hpoint, 1, hsession, rfl, adr, hadr, hadr', control, hcontrol, hcontrol', minutes, hminutes,
      hminutes', seconds, hseconds, hseconds', hpoint', start, hstart, rfl⟩

/-! ## Panics -/

def Quiet {α : Type} (x : Except Failure α) : Prop := ∀ message, x ≠ .error (.panic message)

section Quiet

variable {α β : Type}

theorem quiet_ok (a : α) : Quiet (.ok a) := by
  intro message h
  cases h

theorem Quiet.bind {x : Except Failure α} {f : α → Except Failure β} (hx : Quiet x) (hf : ∀ a, Quiet (f a)) :
    Quiet (x >>= f) := by
  rcases x with failure | a
  · intro message h
    exact hx message (congrArg Except.error (Except.error.inj h))
  · exact hf a

theorem Quiet.bind_panics_iff {x : Except Failure α} {f : α → Except Failure β} (hx : Quiet x) :
    (∃ message, (x >>= f) = .error (.panic message)) ↔ ∃ a, x = .ok a ∧ ∃ message, f a = .error (.panic message) := by
  rcases x with failure | a
  · refine ⟨fun ⟨message, h⟩ => absurd (congrArg Except.error (Except.error.inj h)) (hx message), ?_⟩
    rintro ⟨a, h, -⟩
    cases h
  · exact ⟨fun h => ⟨a, rfl, h⟩, fun ⟨_, heq, h⟩ => Except.ok.inj heq ▸ h⟩

theorem quiet_require (c : Prop) [Decidable c] (message : String) : Quiet (require c (invalid message)) := by
  intro text h
  unfold require at h
  split_ifs at h
  cases h

theorem quiet_orError (message : String) (o : Option α) : Quiet (orError (invalid message) o) := by
  intro text h
  rcases o with - | a <;> cases h

end Quiet

theorem quiet_requiredU32 (pairs : Pairs) (key : String) : Quiet (requiredU32 pairs key) :=
  .bind (quiet_orError _ _) fun _ => quiet_orError _ _

theorem quiet_declaredEntries (sections : Sections) : Quiet (declaredEntries sections) :=
  .bind (quiet_orError _ _) fun _ => .bind (quiet_requiredU32 _ _) fun _ => .bind (quiet_require _ _) fun _ =>
    .bind (quiet_requiredU32 _ _) fun _ => .bind (quiet_require _ _) fun _ => .bind (quiet_requiredU32 _ _) fun _ =>
    .bind (quiet_require _ _) fun _ => quiet_ok _

theorem quiet_checkEntry (pairs : Pairs) (entry : ℕ) : Quiet (checkEntry pairs entry) := by
  have hbyte : ∀ (key : String) (c : ℕ → Prop) [DecidablePred c] (message : String) (f : ℕ → Except Failure Unit),
      (∀ n, Quiet (f n)) →
      Quiet (requiredU32 pairs key >>= fun n => require (c n) (invalid message) >>= fun _ => f n) :=
    fun key c _ message f hf => (quiet_requiredU32 pairs key).bind fun n => (quiet_require _ _).bind fun _ => hf n
  refine (quiet_requiredU32 _ _).bind fun _ => ?_
  refine hbyte _ _ _ _ fun _ => hbyte _ _ _ _ fun _ => hbyte _ _ _ _ fun _ => ?_
  refine hbyte _ _ _ _ fun _ => hbyte _ _ _ _ fun _ => (quiet_require _ _).bind fun _ => ?_
  exact .bind (.bind (quiet_orError _ _) fun _ => quiet_orError _ _) fun _ => quiet_ok _

theorem quiet_companionNames (path : FsPath) : Quiet (companionNames path) :=
  .bind (quiet_orError _ _) fun _ => .bind (quiet_orError _ _) fun _ => .bind (quiet_require _ _) fun _ => quiet_ok _

theorem quiet_parseSections (text : List Char) : Quiet (parseSections text) := by
  intro message h
  obtain ⟨e, heq⟩ := parseSections_error h
  cases heq

/-- The entries are checked in order: it ends at the first without a section, or at the first that is bad. -/
theorem checkEntries_cases (sections : Sections) (count : ℕ) : ∀ start : ℕ,
    ((∃ u, checkEntries sections (List.range' start count) = .ok u) ↔
      ∀ i, start ≤ i → i < start + count → Described sections i) ∧
    ((∃ message, checkEntries sections (List.range' start count) = .error (.panic message)) ↔
      ∃ i, start ≤ i ∧ i < start + count ∧ OrdMap.find? (entryName i) sections = none ∧
        ∀ j, start ≤ j → j < i → Described sections j) := by
  induction count with
  | zero =>
    intro start
    refine ⟨⟨fun _ i hlow hhigh => absurd hlow (by omega), fun _ => ⟨(), rfl⟩⟩, ⟨(by rintro ⟨_, h⟩; cases h), ?_⟩⟩
    rintro ⟨i, hlow, hhigh, -⟩
    omega
  | succ count ih =>
    intro start
    obtain ⟨hok, hpanic⟩ := ih (start + 1)
    rw [List.range'_succ, checkEntries]
    rcases hfind : OrdMap.find? (entryName start) sections with - | pairs
    · refine ⟨⟨(by rintro ⟨_, h⟩; cases h), fun h => ?_⟩, ⟨fun _ => ?_, fun _ => ⟨_, rfl⟩⟩⟩
      · obtain ⟨pairs, hpairs, -⟩ := h start le_rfl (by omega)
        rw [hfind] at hpairs
        cases hpairs
      · exact ⟨start, le_rfl, by omega, hfind, fun j hlow hhigh => absurd hlow (by omega)⟩
    · have hdescribed : Described sections start ↔ WellFormed pairs := by
        rw [Described, hfind]
        constructor
        · rintro ⟨_, heq, h⟩
          exact Option.some.inj heq ▸ h
        · exact fun h => ⟨pairs, rfl, h⟩
      rcases hcheck : checkEntry pairs start with failure | u
      · have hbad : ¬Described sections start := by
          have hok : checkEntry pairs start = .ok () ↔ WellFormed pairs := checkEntry_eq_ok_iff
          rw [hdescribed, ← hok, hcheck]
          exact fun h => by cases h
        simp only [orError, ok_bind, hcheck]
        refine ⟨⟨(by rintro ⟨_, h⟩; cases h), fun h => absurd (h start le_rfl (by omega)) hbad⟩, ⟨?_, ?_⟩⟩
        · rintro ⟨message, h⟩
          exact absurd (hcheck.trans h) (quiet_checkEntry pairs start message)
        · rintro ⟨i, hlow, -, hnone, hbefore⟩
          rcases Nat.eq_or_lt_of_le hlow with rfl | hlt
          · rw [hfind] at hnone
            cases hnone
          · exact absurd (hbefore start le_rfl hlt) hbad
      · have hgood : Described sections start := hdescribed.mpr ((checkEntry_eq_ok_iff).mp hcheck)
        simp only [orError, ok_bind, hcheck]
        refine ⟨hok.trans ⟨fun h i hlow hhigh => ?_, fun h i hlow hhigh => h i (by omega) (by omega)⟩,
          hpanic.trans ⟨?_, ?_⟩⟩
        · rcases Nat.eq_or_lt_of_le hlow with rfl | hlt
          · exact hgood
          · exact h i hlt (by omega)
        · rintro ⟨i, hlow, hhigh, hnone, hbefore⟩
          refine ⟨i, by omega, by omega, hnone, fun j hlow' hhigh' => ?_⟩
          rcases Nat.eq_or_lt_of_le hlow' with rfl | hlt
          · exact hgood
          · exact hbefore j hlt hhigh'
        · rintro ⟨i, hlow, hhigh, hnone, hbefore⟩
          rcases Nat.eq_or_lt_of_le hlow with rfl | hlt
          · rw [hfind] at hnone
            cases hnone
          · exact ⟨i, hlt, by omega, hnone, fun j hlow' => hbefore j (by omega)⟩

/-! ## Acceptance -/

def IsCcd (path : FsPath) : Prop :=
  ∃ name ending, path.fileName = some name ∧ (splitExtension name).2 = some ending ∧
    ending.toList.map Char.toLower = "ccd".toList

theorem companionNames_of_isCcd {path : FsPath} (h : IsCcd path) : ∃ names, companionNames path = .ok names := by
  obtain ⟨name, ending, hname, hending, hccd⟩ := h
  rw [companionNames, hname]
  simp only [orError, ok_bind, hending, require, if_pos hccd]
  exact ⟨_, rfl⟩

theorem referencesOfText_ok_iff {path : FsPath} (hpath : IsCcd path) (text : List Char) :
    (∃ references, referencesOfText path text = .ok references) ↔ Complete text := by
  obtain ⟨names, hnames⟩ := companionNames_of_isCcd hpath
  simp only [referencesOfText, bind_eq_ok, require_eq_ok, exists_const, declaredEntries_eq_ok_iff,
    parseSections_eq_ok_iff, hnames, List.range_eq_range']
  constructor
  · rintro ⟨references, sections, ⟨hgroup, hlegal⟩, entries, hdeclares, -, u, hcheck, -⟩
    have hdescribed := ((checkEntries_cases sections entries 0).1).mp ⟨u, hcheck⟩
    exact ⟨sections, entries, hgroup, hlegal, hdeclares, fun i hi => hdescribed i (Nat.zero_le i) (by omega)⟩
  · rintro ⟨sections, entries, hgroup, hlegal, hdeclares, hdescribed⟩
    obtain ⟨u, hcheck⟩ := ((checkEntries_cases sections entries 0).1).mpr fun i _ hi => hdescribed i (by omega)
    refine ⟨_, sections, ⟨hgroup, hlegal⟩, entries, hdeclares, fun i hi => ?_, u, hcheck, names, rfl, rfl⟩
    obtain ⟨pairs, hpairs, -⟩ := hdescribed i hi
    exact mem_presentEntries (by have := hdeclares.at_most; omega) hpairs

theorem referencesOfText_panics_iff (path : FsPath) (text : List Char) :
    (∃ message, referencesOfText path text = .error (.panic message)) ↔ Respelled text := by
  have hentries : ∀ (sections : Sections) (entries : ℕ),
      (∃ message, (checkEntries sections (List.range entries) >>= fun _ => companionNames path >>= fun names =>
        .ok [(⟨names.1⟩ : MediaReference), ⟨names.2⟩]) = .error (.panic message)) ↔
      ∃ entry < entries, OrdMap.find? (entryName entry) sections = none ∧ ∀ j < entry, Described sections j := by
    intro sections entries
    have hpanic := (checkEntries_cases sections entries 0).2
    rw [← List.range_eq_range'] at hpanic
    simp only [Nat.zero_le, true_and, Nat.zero_add, true_implies] at hpanic
    rw [← hpanic]
    rcases checkEntries sections (List.range entries) with failure | u
    · constructor
      · rintro ⟨message, h⟩
        exact ⟨message, congrArg Except.error (Except.error.inj h)⟩
      · rintro ⟨message, h⟩
        exact ⟨message, congrArg Except.error (Except.error.inj h)⟩
    · refine ⟨?_, (by rintro ⟨message, h⟩; cases h)⟩
      rintro ⟨message, h⟩
      exact absurd h (((quiet_companionNames path).bind fun _ => quiet_ok _) message)
  rw [referencesOfText, (quiet_parseSections text).bind_panics_iff]
  simp only [(quiet_declaredEntries _).bind_panics_iff, (quiet_require _ _).bind_panics_iff, require_eq_ok,
    exists_const, parseSections_eq_ok_iff, declaredEntries_eq_ok_iff]
  constructor
  · rintro ⟨sections, ⟨hgroup, hlegal⟩, entries, hdeclares, hpresent, h⟩
    exact ⟨sections, entries, hgroup, hlegal, hdeclares, hpresent, (hentries sections entries).mp h⟩
  · rintro ⟨sections, entries, hgroup, hlegal, hdeclares, hpresent, h⟩
    exact ⟨sections, ⟨hgroup, hlegal⟩, entries, hdeclares, hpresent, (hentries sections entries).mpr h⟩

/-- What a table parser owes to its callers. -/
structure Contract (path : FsPath) (text : List Char) : Prop where
  quiet : Quiet (referencesOfText path text)
  accepts : (∃ references, referencesOfText path text = .ok references) ↔ Complete text

/-- Complete tables are accepted and nothing else is, and it does not panic unless the table is one that spells the
number of an entry in another way. -/
theorem contract_iff_not_respelled {path : FsPath} (hpath : IsCcd path) (text : List Char) :
    Contract path text ↔ ¬Respelled text := by
  rw [← referencesOfText_panics_iff path text]
  exact ⟨fun h ⟨message, hpanic⟩ => h.quiet message hpanic,
    fun h => ⟨fun message hpanic => h ⟨message, hpanic⟩, referencesOfText_ok_iff hpath text⟩⟩

section Example

def threeEntries (first : String) : List Char :=
  ("[Disc]\nTocEntries=3\nSessions=1\nDataTracksScrambled=0\n[" ++ first ++ "]\nSession=1\nPoint=0xA0\nADR=1\n" ++
    "Control=4\nPMin=1\nPSec=0\nPLBA=-150\n[Entry 1]\nSession=1\nPoint=0xA1\nADR=1\nControl=4\nPMin=1\nPSec=0\n" ++
    "PLBA=0\n[Entry 2]\nSession=1\nPoint=0xA2\nADR=1\nControl=4\nPMin=0\nPSec=0\nPLBA=2\n").toList

def disc : FsPath := ⟨false, ["disc.ccd"]⟩

theorem toList_pieces {a b c d e : List Char} :
    (String.ofList a ++ String.ofList b ++ String.ofList c ++ String.ofList d ++ String.ofList e).toList =
      a ++ b ++ c ++ d ++ e := by
  simp only [← String.ofList_append, String.toList_ofList]

theorem isCcd_disc : IsCcd disc := ⟨"disc.ccd", "ccd", by decide +kernel⟩

theorem contract_canonical_entry : ¬Respelled (threeEntries "Entry 0") := by
  refine (contract_iff_not_respelled isCcd_disc (threeEntries "Entry 0")).mp ⟨fun message h => ?_,
    referencesOfText_ok_iff isCcd_disc _⟩
  have hok : referencesOfText disc (threeEntries "Entry 0") = .ok [⟨"disc.img"⟩, ⟨"disc.sub"⟩] := by
    refine (congrArg (referencesOfText disc) toList_pieces).trans ?_
    decide +kernel
  rw [hok] at h
  cases h

/-- `[Entry 00]` is taken for the first entry, and then there is no section `ENTRY 0`. -/
theorem padded_entry_panics : ¬∀ (path : FsPath) (text : List Char), IsCcd path → Contract path text :=
  fun h => (h disc (threeEntries "Entry 00") isCcd_disc).quiet "declared CCD entry section was checked above" (by
    refine (congrArg (referencesOfText disc) toList_pieces).trans ?_
    decide +kernel)

end Example

end Ccd

end Emucap.Media
