import Emucap.Media.Ccd
import Emucap.Media.Cue
import Emucap.Media.PortableNames
import Emucap.Media.Toc

/-!
# Playlists

`m3u.rs`. `references` collects what a playlist stands for into a flat list of names; `expandRoot` is the same
expansion without the collector, with every name as the path that it is to denote.
-/

namespace Emucap.Media.Playlist

open Emucap.Lib Emucap.Media.Ccd

def maxRecursionDepth : ℕ := 9
def maxDiscs : ℕ := 25

def isComment (line : List Char) : Bool := line == [] || line.head? == some '#'

section Files

variable {σ Handle : Type} (fs : FileSystem σ Handle)

/-- The text of a playlist without a byte order mark. -/
def playlistText (path : FsPath) : Call σ (List Char) := do
  let bytes ← readDescriptor fs path "M3U" maxDescriptorBytes
  let text ← fromExcept (descriptorText bytes "M3U")
  return Cue.withoutMark text

/-! ## Entries -/

def notPortableAt (lineIndex : ℕ) : IoError :=
  invalidData s!"M3U path escapes or is not portable at line {lineIndex + 1}"

def noEntries (path : FsPath) : IoError := invalidData s!"M3U contains no disc entries: {path.display}"

/-- The loop of `direct_entries`. -/
def directLines : ℕ → List String → List (List Char) → Except IoError (List String)
  | _, entries, [] => .ok entries
  | lineIndex, entries, line :: rest =>
    if isComment (trimEnd line) then directLines (lineIndex + 1) entries rest else do
      let line := String.ofList (trimEnd line)
      require (isPortableRelativeMember line) (notPortableAt lineIndex)
      require (entries.length < maxGraphMembers - 1) (invalidData "M3U contains too many entries")
      directLines (lineIndex + 1) (entries ++ [line]) rest

/-- Parse one selected or already approved playlist without opening anything it names. -/
def directEntries (path : FsPath) : Call σ (List String) := do
  let text ← playlistText fs path
  let entries ← fromExcept (directLines 0 [] (lines text))
  demand (entries ≠ []) (noEntries path)
  return entries

/-! ## Collector -/

structure Collector where
  activePlaylists : List FsPath
  references : List MediaReference
  discCount : ℕ

/-- The descriptors that a playlist may name beside playlists. -/
inductive DescriptorKind where
  | cue
  | ccd
  | toc
  deriving DecidableEq

inductive EntryKind where
  | playlist
  | descriptor (kind : DescriptorKind)
  deriving DecidableEq

def entryKind (path : FsPath) : Option EntryKind :=
  (lowerExtension path).bind fun ending =>
    if ending = "m3u".toList then some .playlist
    else if ending = "cue".toList then some (.descriptor .cue)
    else if ending = "ccd".toList then some (.descriptor .ccd)
    else if ending = "toc".toList then some (.descriptor .toc)
    else none

def validatedReferences (kind : DescriptorKind) (path : FsPath) : EStateM Failure σ (List MediaReference) :=
  match kind with
  | .cue => do
    let direct ← io (Cue.validateMednafenGraph fs path)
    return direct.map fun reference => ⟨reference.declaredName⟩
  | .ccd => Ccd.validateGraph fs path
  | .toc => io (Toc.validateGraph fs path)

def addReference (self : Collector) (declaredName : String) : EStateM Failure σ Collector := do
  demand (self.references.length < maxGraphMembers - 1) (invalid "M3U media graph contains too many files")
  return { self with references := self.references ++ [⟨declaredName⟩] }

/-- `add_descriptor_members` and `add_media_references`. -/
def addMembers (descriptor : String) (direct : List MediaReference) (self : Collector) :
    EStateM Failure σ Collector :=
  direct.foldlM (fun self reference => addReference self (nestedName descriptor reference.declaredName)) self

variable (root : FsPath)

def collectEntry (nested : String → Collector → EStateM Failure σ Collector) (relativePlaylist : String)
    (lineIndex : ℕ) (line : String) (self : Collector) : EStateM Failure σ Collector := do
  demand (isPortableRelativeMember line) (.io (notPortableAt lineIndex))
  let member := nestedName relativePlaylist line
  demand (isPortableRelativeMember member) (invalid s!"M3U nested path is not portable at line {lineIndex + 1}")
  let path ← io (regularMemberPath fs root member)
  let self ← addReference self member
  let self ← match entryKind path with
    | some .playlist => nested member self
    | some (.descriptor kind) => do
      let direct ← validatedReferences fs kind path
      addMembers member direct { self with discCount := self.discCount + 1 }
    | none => throw (invalid s!"M3U member must be CUE, CCD, TOC, or M3U: {debugText member}")
  demand (self.discCount ≤ maxDiscs) (invalid s!"M3U contains more than {maxDiscs} discs")
  return self

def collectLines (nested : String → Collector → EStateM Failure σ Collector) (relativePlaylist : String) :
    ℕ → Bool → Collector → List (List Char) → EStateM Failure σ (Collector × Bool)
  | _, foundEntry, self, [] => pure (self, foundEntry)
  | lineIndex, foundEntry, self, line :: rest =>
    if isComment (trimEnd line) then collectLines nested relativePlaylist (lineIndex + 1) foundEntry self rest
    else do
      let self ← collectEntry fs root nested relativePlaylist lineIndex (String.ofList (trimEnd line)) self
      collectLines nested relativePlaylist (lineIndex + 1) true self rest

def collectPlaylistContents (nested : String → Collector → EStateM Failure σ Collector) (playlist : FsPath)
    (relativePlaylist : String) (self : Collector) : EStateM Failure σ Collector := do
  let text ← io (playlistText fs playlist)
  let (self, foundEntry) ← collectLines fs root nested relativePlaylist 0 false self (lines text)
  demand foundEntry (.io (noEntries playlist))
  return self

/-- `collect_nested_playlist` at a depth that is `levels` below one too deep. -/
def collectNestedPlaylist : ℕ → String → Collector → EStateM Failure σ Collector
  | 0, _, _ => throw (invalid s!"M3U recursion exceeds {maxRecursionDepth}")
  | levels + 1, relativePlaylist, self => do
    let playlist ← io (regularMemberPath fs root relativePlaylist)
    demand (playlist ∉ self.activePlaylists) (invalid s!"M3U playlist cycle detected at {playlist.display}")
    let self ← collectPlaylistContents fs root (collectNestedPlaylist levels) playlist relativePlaylist
      { self with activePlaylists := playlist :: self.activePlaylists }
    return { self with activePlaylists := self.activePlaylists.filter (· ≠ playlist) }

def collectRoot (entry : FsPath) (self : Collector) : EStateM Failure σ Collector := do
  let canonical ← io (fs.canonicalize entry)
  let self ← collectPlaylistContents fs root (collectNestedPlaylist fs root maxRecursionDepth) entry ""
    { self with activePlaylists := canonical :: self.activePlaylists }
  return { self with activePlaylists := self.activePlaylists.filter (· ≠ canonical) }

def references (path : FsPath) : EStateM Failure σ (List MediaReference) := do
  let root := parentDirectory path
  let rootMetadata ← io (fs.symlinkMetadata root)
  demand (rootMetadata.fileType = .dir) (invalid "M3U entry directory must be a real directory")
  let collector ← collectRoot fs root path ⟨[], [], 0⟩
  return collector.references

end Files

/-! ## Expansion -/

section Expansion

variable {Handle : Type} (fs : FileSystem Unit Handle)

def answer {ε α : Type} (call : EStateM ε Unit α) : Option α :=
  match call () with
  | .ok a _ => some a
  | .error _ _ => none

/-- Paths below the root directory by their components, and the number of discs. -/
abbrev Expansion := List (List String) × ℕ

variable (root : FsPath)

def memberAt (components : List String) : Call Unit FsPath := do
  let rootMetadata ← fs.symlinkMetadata root
  demand (rootMetadata.fileType = .dir) (invalidInput "managed root is not a real directory")
  let canonicalRoot ← fs.canonicalize root
  let current ← walkMember fs root components
  let canonical ← fs.canonicalize current
  demand (canonical.startsWith canonicalRoot) (invalidInput "managed member escapes its root")
  pure canonical

def pathsBeside (member : List String) (declared : List MediaReference) : List (List String) :=
  declared.map fun reference => member.dropLast ++ (FsPath.new reference.declaredName).components

/-- An entry of a playlist in `directory`: itself, and behind it what its file stands for. The names that a file
declares are below the directory of that file. -/
def expandEntry (nested : FsPath → List String → Option Expansion) (directory : List String) (line : String) :
    Option Expansion := do
  let member := directory ++ (FsPath.new line).components
  let file ← answer (memberAt fs root member)
  let (below, discs) ← match ← entryKind file with
    | .playlist => nested file member.dropLast
    | .descriptor kind =>
      (answer (validatedReferences fs kind file)).map fun declared => (pathsBeside member declared, 1)
  return (member :: below, discs)

def both (a b : Option Expansion) : Option Expansion := do
  let (names, discs) ← a
  let (names', discs') ← b
  return (names ++ names', discs + discs')

def expandLines (nested : FsPath → List String → Option Expansion) (directory : List String) :
    List String → Option Expansion
  | [] => some ([], 0)
  | line :: rest => both (expandEntry fs root nested directory line) (expandLines nested directory rest)

def expandContents (nested : FsPath → List String → Option Expansion) (file : FsPath) (directory : List String) :
    Option Expansion := do
  let entries ← answer (directEntries fs file)
  expandLines fs root nested directory entries

/-- A playlist below others, at most `levels` deep, that is not one of the `active` ones. -/
def expandPlaylist : ℕ → List FsPath → FsPath → List String → Option Expansion
  | 0, _, _, _ => none
  | levels + 1, active, file, directory =>
    if file ∈ active then none
    else expandContents fs root (expandPlaylist levels (file :: active)) file directory

def expandRoot (path : FsPath) : Option Expansion := do
  let canonical ← answer (fs.canonicalize path)
  expandContents fs (parentDirectory path) (expandPlaylist fs (parentDirectory path) maxRecursionDepth [canonical])
    path []

/-! ## Names that denote what they are to -/

def relativePath (reference : MediaReference) : List String := (FsPath.new reference.declaredName).components

/-- Where an entry is a descriptor, its name ends in a name, and the names of its members are not too long. -/
def EntryWellNamed (nested : FsPath → String → Prop) (relativePlaylist line : String) : Prop :=
  ∀ path, answer (regularMemberPath fs root (nestedName relativePlaylist line)) = some path →
    match entryKind path with
    | some .playlist => nested path (nestedName relativePlaylist line)
    | some (.descriptor kind) =>
      ∀ declared, answer (validatedReferences fs kind path) = some declared → ∀ reference ∈ declared,
        endsInName (nestedName relativePlaylist line) = true ∧
          (nestedName (nestedName relativePlaylist line) reference.declaredName).utf8ByteSize ≤ 4096
    | none => True

def ContentsWellNamed (nested : FsPath → String → Prop) (file : FsPath) (relativePlaylist : String) : Prop :=
  ∀ entries, answer (directEntries fs file) = some entries →
    ∀ line ∈ entries, EntryWellNamed fs root nested relativePlaylist line

/-- The descriptors of the playlists up to `levels` below one. -/
def PlaylistWellNamed : ℕ → FsPath → String → Prop
  | 0, _, _ => True
  | levels + 1, file, relativePlaylist =>
    ContentsWellNamed fs root (PlaylistWellNamed levels) file relativePlaylist

/-- The descriptors that are reached from a playlist. -/
def WellNamed (path : FsPath) : Prop :=
  ContentsWellNamed fs (parentDirectory path) (PlaylistWellNamed fs (parentDirectory path) maxRecursionDepth) path ""

/-! ## Calls -/

theorem answer_eq_some {ε α : Type} {call : EStateM ε Unit α} {a : α} : answer call = some a ↔ call () = .ok a () := by
  unfold answer
  rcases call () with ⟨b, u⟩ | ⟨e, u⟩
  · rw [Option.some_inj, EStateM.Result.ok.injEq]
    exact (and_iff_left rfl).symm
  · exact ⟨fun h => (by cases h), fun h => (by cases h)⟩

theorem io_run_eq_ok {α : Type} {call : Call Unit α} {a : α} {u u' : Unit} :
    io call u = .ok a u' ↔ answer call = some a := by
  rw [io, mapError_run_eq_ok, answer_eq_some]

theorem regularMemberPath_of_accepted {name : String} (h : isPortableRelativeMember name = true) :
    answer (regularMemberPath fs root name) = answer (memberAt fs root (namedPieces name)) := by
  have hdemand : (demand (isPortableRelativeMember name = true)
      (invalidInput "member path must remain relative to its managed root") : Call Unit Unit) = pure () := if_pos h
  rw [regularMemberPath, hdemand, pure_bind, memberAt, components_of_accepted h]

theorem walkMember_through {front back : List String} (hback : back ≠ []) : ∀ {current found : FsPath}, front ≠ [] →
    answer (walkMember fs current (front ++ back)) = some found →
    ∃ metadata, answer (fs.symlinkMetadata (front.foldl FsPath.push current)) = some metadata ∧
      metadata.fileType = .dir := by
  induction front with
  | nil => exact fun h => absurd rfl h
  | cons component rest ih =>
    intro current found _ h
    rw [answer_eq_some, List.cons_append, walkMember, demand_bind_run_eq_ok, bind_run_eq_ok] at h
    obtain ⟨-, metadata, u, hmetadata, h⟩ := h
    rw [demand_bind_run_eq_ok, if_neg (by simp [hback])] at h
    rcases eq_or_ne rest [] with rfl | hrest
    · exact ⟨metadata, (answer_eq_some).mpr hmetadata, h.1⟩
    · exact ih hrest ((answer_eq_some).mpr h.2)

theorem walkMember_end {components : List String} : ∀ {current found : FsPath}, components ≠ [] →
    answer (walkMember fs current components) = some found →
    ∃ metadata, answer (fs.symlinkMetadata (components.foldl FsPath.push current)) = some metadata ∧
      metadata.fileType = .file := by
  induction components with
  | nil => exact fun h => absurd rfl h
  | cons component rest ih =>
    intro current found _ h
    rw [answer_eq_some, walkMember, demand_bind_run_eq_ok, bind_run_eq_ok] at h
    obtain ⟨-, metadata, u, hmetadata, h⟩ := h
    rw [demand_bind_run_eq_ok] at h
    rcases eq_or_ne rest [] with rfl | hrest
    · rw [if_pos rfl] at h
      exact ⟨metadata, (answer_eq_some).mpr hmetadata, h.1⟩
    · exact ih hrest ((answer_eq_some).mpr h.2)

theorem walkMember_of_memberAt {components : List String} {file : FsPath}
    (h : answer (memberAt fs root components) = some file) :
    ∃ found, answer (walkMember fs root components) = some found := by
  rw [answer_eq_some, memberAt, bind_run_eq_ok] at h
  obtain ⟨metadata, u, -, h⟩ := h
  obtain ⟨-, h⟩ := demand_bind_run_eq_ok.mp h
  obtain ⟨canonicalRoot, u₁, -, h⟩ := bind_run_eq_ok.mp h
  obtain ⟨current, u₂, hwalk, -⟩ := bind_run_eq_ok.mp h
  exact ⟨current, (answer_eq_some).mpr hwalk⟩

theorem memberAt_below {front back : List String} {file below : FsPath} (hfront : front ≠ []) (hback : back ≠ [])
    (hfile : answer (memberAt fs root front) = some file)
    (hbelow : answer (memberAt fs root (front ++ back)) = some below) : False := by
  obtain ⟨found, hwalk⟩ := walkMember_of_memberAt fs root hfile
  obtain ⟨found', hwalk'⟩ := walkMember_of_memberAt fs root hbelow
  obtain ⟨metadata, hmetadata, htype⟩ := walkMember_end fs hfront hwalk
  obtain ⟨metadata', hmetadata', htype'⟩ := walkMember_through fs hback hfront hwalk'
  rw [hmetadata, Option.some_inj] at hmetadata'
  rw [hmetadata', htype'] at htype
  cases htype

theorem validatedReferences_portable {kind : DescriptorKind} {path : FsPath} {declared : List MediaReference}
    (h : answer (validatedReferences fs kind path) = some declared) :
    ∀ reference ∈ declared, isPortableRelativeMember reference.declaredName = true := by
  rw [answer_eq_some] at h
  rcases kind with - | - | -
  · obtain ⟨direct, u, hdirect, hrun⟩ := bind_run_eq_ok.mp h
    cases hrun
    intro reference hreference
    obtain ⟨original, horiginal, rfl⟩ := List.mem_map.mp hreference
    exact Cue.validateMednafenGraph_portable fs (mapError_run_eq_ok.mp hdirect) original horiginal
  · exact Ccd.validateGraph_portable fs h
  · exact Toc.validateGraph_portable fs (mapError_run_eq_ok.mp h)

/-! ## What a run adds -/

def Fits (self : Collector) : Prop :=
  self.references.length ≤ maxGraphMembers - 1 ∧ self.discCount ≤ maxDiscs

/-- The run has added references, one for each path of the expansion, and they denote these paths, and are portable,
exactly if `good`. -/
structure Adds (before after : Collector) (expanded : Expansion) (added : List MediaReference) (good : Prop) : Prop where
  result : after = ⟨before.activePlaylists, before.references ++ added, before.discCount + expanded.2⟩
  fits : Fits after
  length : expanded.1.length = added.length
  denotes : (expanded.1 = added.map relativePath ∧
    ∀ reference ∈ added, isPortableRelativeMember reference.declaredName = true) ↔ good

theorem Adds.nil {self : Collector} (h : Fits self) : Adds self self ([], 0) [] True where
  result := by rw [List.append_nil, Nat.add_zero]
  fits := h
  length := rfl
  denotes := by simp

theorem Adds.append {self middle after : Collector} {expanded expanded' : Expansion} {added added' : List MediaReference}
    {good good' : Prop} (h : Adds self middle expanded added good) (h' : Adds middle after expanded' added' good') :
    Adds self after (expanded.1 ++ expanded'.1, expanded.2 + expanded'.2) (added ++ added') (good ∧ good') where
  result := by
    rw [h'.result, h.result, List.append_assoc, Nat.add_assoc]
  fits := h'.fits
  length := by
    rw [List.length_append, List.length_append, h.length, h'.length]
  denotes := by
    have hsplit : expanded.1 ++ expanded'.1 = (added ++ added').map relativePath ↔
        expanded.1 = added.map relativePath ∧ expanded'.1 = added'.map relativePath := by
      rw [List.map_append]
      refine ⟨fun heq => List.append_inj heq (by rw [List.length_map, h.length]), ?_⟩
      rintro ⟨heq, heq'⟩
      rw [heq, heq']
    rw [hsplit, List.forall_mem_append, ← h.denotes, ← h'.denotes]
    exact and_and_and_comm

theorem Adds.congr {self after : Collector} {expanded : Expansion} {added : List MediaReference} {good good' : Prop}
    (h : Adds self after expanded added good) (hgood : good ↔ good') : Adds self after expanded added good' :=
  ⟨h.result, h.fits, h.length, h.denotes.trans hgood⟩

theorem addReference_run {self after : Collector} {name : String} {u u' : Unit}
    (h : addReference self name u = .ok after u') :
    after = ⟨self.activePlaylists, self.references ++ [⟨name⟩], self.discCount⟩ ∧
      after.references.length ≤ maxGraphMembers - 1 := by
  rw [addReference, demand_bind_run_eq_ok] at h
  obtain ⟨hlength, h⟩ := h
  cases h
  refine ⟨rfl, ?_⟩
  rw [List.length_append]
  exact hlength

def membersOf (descriptor : String) (direct : List MediaReference) : List MediaReference :=
  direct.map fun reference => ⟨nestedName descriptor reference.declaredName⟩

theorem addMembers_run {descriptor : String} {direct : List MediaReference} : ∀ {self after : Collector} {u u' : Unit},
    addMembers descriptor direct self u = .ok after u' → self.references.length ≤ maxGraphMembers - 1 →
    after = ⟨self.activePlaylists, self.references ++ membersOf descriptor direct, self.discCount⟩ ∧
      after.references.length ≤ maxGraphMembers - 1 := by
  induction direct with
  | nil =>
    intro self after u u' h hself
    cases h
    exact ⟨by rw [membersOf, List.map_nil, List.append_nil], hself⟩
  | cons reference direct ih =>
    intro self after u u' h hself
    rw [addMembers, List.foldlM_cons, bind_run_eq_ok] at h
    obtain ⟨next, v, hnext, hrest⟩ := h
    obtain ⟨heq, hlength⟩ := addReference_run hnext
    obtain ⟨hafter, hafterLength⟩ := ih hrest hlength
    refine ⟨?_, hafterLength⟩
    rw [hafter, heq, List.append_assoc]
    rfl

theorem member_denotes_iff {descriptor child : String} (hdescriptor : isPortableRelativeMember descriptor = true)
    (hchild : isPortableRelativeMember child = true) :
    ((namedPieces descriptor).dropLast ++ (FsPath.new child).components = relativePath ⟨nestedName descriptor child⟩ ∧
      isPortableRelativeMember (nestedName descriptor child) = true) ↔
      endsInName descriptor = true ∧ (nestedName descriptor child).utf8ByteSize ≤ 4096 := by
  rw [nestedName_accepted_iff hdescriptor hchild]
  refine and_congr_left fun _ => ?_
  rw [relativePath, components_nestedName hdescriptor hchild, namedPieces_nestedName hdescriptor,
    components_of_accepted hchild]
  dsimp only
  rw [List.append_left_inj]
  split_ifs with hends
  · exact iff_of_true rfl hends
  · refine iff_of_false (fun h => ?_) hends
    have hlength := congrArg List.length h
    have hne := List.length_pos_iff.mpr (namedPieces_of_accepted hdescriptor).1
    rw [List.length_dropLast] at hlength
    omega

section Entries

variable {fs root}
variable {nested : String → Collector → EStateM Failure Unit Collector}
  {nestedExpansion : FsPath → List String → Option Expansion} {nestedGood : FsPath → String → Prop}
  {active : List FsPath}

/-- What is to hold of the playlists below one. -/
def NestedRuns (fs : FileSystem Unit Handle) (root : FsPath)
    (nested : String → Collector → EStateM Failure Unit Collector)
    (nestedExpansion : FsPath → List String → Option Expansion) (nestedGood : FsPath → String → Prop)
    (active : List FsPath) : Prop :=
  ∀ name file self after, isPortableRelativeMember name = true →
    answer (regularMemberPath fs root name) = some file → self.activePlaylists = active → Fits self →
    answer (nested name self) = some after →
    ∃ expanded added, nestedExpansion file (namedPieces name).dropLast = some expanded ∧
      Adds self after expanded added (nestedGood file name)

structure Beside (relativePlaylist : String) (directory : List String) : Prop where
  directory : ∀ line, isPortableRelativeMember line = true →
    isPortableRelativeMember (nestedName relativePlaylist line) = true →
    namedPieces (nestedName relativePlaylist line) = directory ++ namedPieces line

theorem beside_root : Beside "" [] := ⟨fun _ _ _ => rfl⟩

theorem beside_of_endsInName {relativePlaylist : String} (h : isPortableRelativeMember relativePlaylist = true)
    (hends : endsInName relativePlaylist = true) : Beside relativePlaylist (namedPieces relativePlaylist).dropLast :=
  ⟨fun line _ _ => by rw [namedPieces_nestedName h, if_pos hends]⟩

theorem collectEntry_run (hnested : NestedRuns fs root nested nestedExpansion nestedGood active)
    {relativePlaylist : String} {directory : List String} (hbeside : Beside relativePlaylist directory)
    {lineIndex : ℕ} {line : String} {self after : Collector} (hactive : self.activePlaylists = active)
    (hfits : Fits self)
    (h : answer (collectEntry fs root nested relativePlaylist lineIndex line self) = some after) :
    isPortableRelativeMember line = true ∧
    (∃ file, answer (memberAt fs root (directory ++ namedPieces line)) = some file) ∧
    ∃ expanded added, expandEntry fs root nestedExpansion directory line = some expanded ∧
      Adds self after expanded added (EntryWellNamed fs root nestedGood relativePlaylist line) ∧ expanded.1 ≠ [] := by
  rw [answer_eq_some, collectEntry, demand_bind_run_eq_ok, demand_bind_run_eq_ok, bind_run_eq_ok] at h
  obtain ⟨hline, hmember, path, u, hpath, h⟩ := h
  obtain ⟨next, u₁, hnext, h⟩ := bind_run_eq_ok.mp h
  rw [io_run_eq_ok] at hpath
  obtain ⟨hnextEq, hnextLength⟩ := addReference_run hnext
  have hpieces := hbeside.directory line hline hmember
  have hfile : answer (memberAt fs root (directory ++ (FsPath.new line).components)) = some path := by
    rw [components_of_accepted hline]
    dsimp only
    rw [← hpieces, ← regularMemberPath_of_accepted fs root hmember]
    exact hpath
  have hmemberPath : directory ++ (FsPath.new line).components = namedPieces (nestedName relativePlaylist line) := by
    rw [components_of_accepted hline, hpieces]
  have hself : relativePath ⟨nestedName relativePlaylist line⟩ = namedPieces (nestedName relativePlaylist line) := by
    rw [relativePath, components_of_accepted hmember]
  have hgood : EntryWellNamed fs root nestedGood relativePlaylist line ↔ match entryKind path with
      | some .playlist => nestedGood path (nestedName relativePlaylist line)
      | some (.descriptor kind) =>
        ∀ declared, answer (validatedReferences fs kind path) = some declared → ∀ reference ∈ declared,
          endsInName (nestedName relativePlaylist line) = true ∧
            (nestedName (nestedName relativePlaylist line) reference.declaredName).utf8ByteSize ≤ 4096
      | none => True := by
    rw [EntryWellNamed, hpath]
    exact ⟨fun h => h path rfl, fun h file hfile => Option.some.inj hfile ▸ h⟩
  refine ⟨hline, ⟨path, by rw [components_of_accepted hline] at hfile; exact hfile⟩, ?_⟩
  have hentry : Adds self next ([namedPieces (nestedName relativePlaylist line)], 0)
      [⟨nestedName relativePlaylist line⟩] True := by
    refine ⟨hnextEq, ⟨hnextLength, ?_⟩, rfl, ?_⟩
    · rw [hnextEq]
      exact hfits.2
    · simp [hself, hmember]
  rw [hgood]
  simp only [expandEntry, hfile]
  rcases hkind : entryKind path with - | - | kind <;> rw [hkind] at h
  · cases h
  · obtain ⟨last, u₂, hlast, h⟩ := bind_run_eq_ok.mp h
    obtain ⟨hdiscs, h⟩ := demand_bind_run_eq_ok.mp h
    cases h
    have hnextActive : next.activePlaylists = active := by
      rw [hnextEq]
      exact hactive
    obtain ⟨expanded, added, hexpanded, hadds⟩ :=
      hnested _ path next after hmember hpath hnextActive hentry.fits (answer_eq_some.mpr hlast)
    have hboth := hentry.append hadds
    rw [true_and, Nat.zero_add] at hboth
    refine ⟨_, _, ?_, hboth, List.cons_ne_nil _ _⟩
    simp only [Option.bind_eq_bind, Option.bind_some, hkind, hmemberPath, hexpanded]
    rfl
  · obtain ⟨direct, u₂, hdirect, h⟩ := bind_run_eq_ok.mp h
    obtain ⟨last, u₃, hlast, h⟩ := bind_run_eq_ok.mp h
    obtain ⟨hdiscs, h⟩ := demand_bind_run_eq_ok.mp h
    cases h
    have hdeclared := answer_eq_some.mpr hdirect
    have hportable := validatedReferences_portable fs hdeclared
    obtain ⟨hafter, hlength⟩ := addMembers_run hlast hentry.fits.1
    have hmembers : Adds next after (pathsBeside (namedPieces (nestedName relativePlaylist line)) direct, 1)
        (membersOf (nestedName relativePlaylist line) direct)
        (∀ reference ∈ direct, endsInName (nestedName relativePlaylist line) = true ∧
          (nestedName (nestedName relativePlaylist line) reference.declaredName).utf8ByteSize ≤ 4096) := by
      refine ⟨hafter, ⟨hlength, hdiscs⟩, by simp [pathsBeside, membersOf], ?_⟩
      rw [pathsBeside, membersOf, List.map_map, List.map_inj_left, List.forall_mem_map, ← forall₂_and]
      exact forall₂_congr fun reference hreference => member_denotes_iff hmember (hportable reference hreference)
    have hboth := hentry.append hmembers
    rw [true_and, Nat.zero_add] at hboth
    have hiff : (∀ declared, answer (validatedReferences fs kind path) = some declared → ∀ reference ∈ declared,
        endsInName (nestedName relativePlaylist line) = true ∧
          (nestedName (nestedName relativePlaylist line) reference.declaredName).utf8ByteSize ≤ 4096) ↔
        ∀ reference ∈ direct, endsInName (nestedName relativePlaylist line) = true ∧
          (nestedName (nestedName relativePlaylist line) reference.declaredName).utf8ByteSize ≤ 4096 := by
      rw [hdeclared]
      exact ⟨fun h => h direct rfl, fun h declared heq => Option.some.inj heq ▸ h⟩
    refine ⟨_, _, ?_, hboth.congr hiff.symm, List.cons_ne_nil _ _⟩
    simp only [Option.bind_eq_bind, Option.bind_some, hkind, hmemberPath, hdeclared]
    rfl

def entriesOf (ls : List (List Char)) : List String :=
  ((ls.map trimEnd).filter fun line => !isComment line).map String.ofList

theorem entriesOf_comment {line : List Char} (h : isComment (trimEnd line) = true) (ls : List (List Char)) :
    entriesOf (line :: ls) = entriesOf ls := by
  simp [entriesOf, h]

theorem entriesOf_entry {line : List Char} (h : ¬isComment (trimEnd line) = true) (ls : List (List Char)) :
    entriesOf (line :: ls) = String.ofList (trimEnd line) :: entriesOf ls := by
  simp [entriesOf, h]

theorem directLines_eq {ls : List (List Char)} : ∀ {lineIndex : ℕ} {entries : List String},
    (∀ line ∈ entriesOf ls, isPortableRelativeMember line = true) →
    entries.length + (entriesOf ls).length ≤ maxGraphMembers - 1 →
    directLines lineIndex entries ls = .ok (entries ++ entriesOf ls) := by
  induction ls with
  | nil =>
    intro lineIndex entries _ _
    rw [directLines, entriesOf, List.map_nil, List.filter_nil, List.map_nil, List.append_nil]
  | cons line ls ih =>
    intro lineIndex entries hportable hlength
    rw [directLines]
    by_cases hcomment : isComment (trimEnd line) = true
    · rw [entriesOf_comment hcomment] at hportable hlength ⊢
      rw [if_pos hcomment]
      exact ih hportable hlength
    · rw [entriesOf_entry hcomment] at hportable hlength ⊢
      rw [List.forall_mem_cons] at hportable
      rw [List.length_cons] at hlength
      rw [if_neg hcomment, require_bind_eq_ok, require_bind_eq_ok]
      refine ⟨hportable.1, by omega, ?_⟩
      rw [ih hportable.2 (by rw [List.length_append, List.length_singleton]; omega), List.append_assoc]
      rfl

theorem collectLines_run (hnested : NestedRuns fs root nested nestedExpansion nestedGood active)
    {relativePlaylist : String} {directory : List String} (hbeside : Beside relativePlaylist directory)
    {ls : List (List Char)} : ∀ {lineIndex : ℕ} {foundEntry foundEntry' : Bool} {self after : Collector},
    self.activePlaylists = active → Fits self →
    answer (collectLines fs root nested relativePlaylist lineIndex foundEntry self ls) = some (after, foundEntry') →
    (∀ line ∈ entriesOf ls, isPortableRelativeMember line = true ∧
      ∃ file, answer (memberAt fs root (directory ++ namedPieces line)) = some file) ∧
    (foundEntry' = true → foundEntry = true ∨ entriesOf ls ≠ []) ∧
    ∃ expanded added, expandLines fs root nestedExpansion directory (entriesOf ls) = some expanded ∧
      Adds self after expanded added
        (∀ line ∈ entriesOf ls, EntryWellNamed fs root nestedGood relativePlaylist line) ∧
      (entriesOf ls).length ≤ expanded.1.length := by
  induction ls with
  | nil =>
    intro lineIndex foundEntry foundEntry' self after _ hfits h
    cases h
    have hnil : entriesOf [] = [] := rfl
    rw [hnil]
    refine ⟨by simp, .inl, ([], 0), [], rfl, (Adds.nil hfits).congr (by simp), le_rfl⟩
  | cons line ls ih =>
    intro lineIndex foundEntry foundEntry' self after hactive hfits h
    rw [collectLines] at h
    by_cases hcomment : isComment (trimEnd line) = true
    · rw [if_pos hcomment] at h
      rw [entriesOf_comment hcomment]
      exact ih hactive hfits h
    · rw [if_neg hcomment, answer_eq_some, bind_run_eq_ok] at h
      obtain ⟨next, u, hnext, hrest⟩ := h
      obtain ⟨hline, hfile, expanded, added, hexpanded, hadds, hne⟩ :=
        collectEntry_run hnested hbeside hactive hfits (answer_eq_some.mpr hnext)
      have hnextActive : next.activePlaylists = active := by
        rw [hadds.result]
        exact hactive
      obtain ⟨hlines, -, expanded', added', hexpanded', hadds', hlength⟩ :=
        ih hnextActive hadds.fits (answer_eq_some.mpr hrest)
      rw [entriesOf_entry hcomment]
      refine ⟨List.forall_mem_cons.mpr ⟨⟨hline, hfile⟩, hlines⟩, fun _ => .inr (List.cons_ne_nil _ _), _, _, ?_,
        (hadds.append hadds').congr List.forall_mem_cons.symm, ?_⟩
      · rw [expandLines, hexpanded, hexpanded']
        rfl
      · have hpos := List.length_pos_iff.mpr hne
        simp only [List.length_cons, List.length_append]
        omega

theorem playlistText_directEntries {playlist : FsPath} {text : List Char}
    (htext : answer (playlistText fs playlist) = some text)
    (hportable : ∀ line ∈ entriesOf (lines text), isPortableRelativeMember line = true)
    (hlength : (entriesOf (lines text)).length ≤ maxGraphMembers - 1) (hne : entriesOf (lines text) ≠ []) :
    answer (directEntries fs playlist) = some (entriesOf (lines text)) := by
  have hlines : directLines 0 [] (lines text) = .ok (entriesOf (lines text)) :=
    directLines_eq hportable (by rw [List.length_nil, Nat.zero_add]; exact hlength)
  rw [answer_eq_some] at htext ⊢
  refine bind_run_eq_ok.mpr ⟨text, (), htext, bind_run_eq_ok.mpr ⟨_, (), ?_, demand_bind_run_eq_ok.mpr ⟨hne, rfl⟩⟩⟩
  exact fromExcept_run_eq_ok.mpr ⟨hlines, rfl⟩

theorem collectPlaylistContents_run (hnested : NestedRuns fs root nested nestedExpansion nestedGood active)
    {relativePlaylist : String} {directory : List String} (hbeside : Beside relativePlaylist directory)
    {playlist : FsPath} {self after : Collector} (hactive : self.activePlaylists = active) (hfits : Fits self)
    (h : answer (collectPlaylistContents fs root nested playlist relativePlaylist self) = some after) :
    (∃ line file, isPortableRelativeMember line = true ∧
      answer (memberAt fs root (directory ++ namedPieces line)) = some file) ∧
    ∃ expanded added, expandContents fs root nestedExpansion playlist directory = some expanded ∧
      Adds self after expanded added (ContentsWellNamed fs root nestedGood playlist relativePlaylist) := by
  rw [answer_eq_some, collectPlaylistContents, bind_run_eq_ok] at h
  obtain ⟨text, u, htext, h⟩ := h
  obtain ⟨⟨last, foundEntry⟩, u₁, hlines, h⟩ := bind_run_eq_ok.mp h
  obtain ⟨hfound, h⟩ := demand_bind_run_eq_ok.mp h
  cases h
  rw [io_run_eq_ok] at htext
  obtain ⟨hentries, hne, expanded, added, hexpanded, hadds, hlength⟩ :=
    collectLines_run hnested hbeside hactive hfits (answer_eq_some.mpr hlines)
  have hfit := hadds.fits.1
  rw [hadds.result, List.length_append, ← hadds.length] at hfit
  have hentriesNe := (hne hfound).resolve_left (by simp)
  have hdirect := playlistText_directEntries htext (fun line hline => (hentries line hline).1) (by omega) hentriesNe
  obtain ⟨line, hline⟩ := List.exists_mem_of_ne_nil _ hentriesNe
  obtain ⟨hportable, file, hfile⟩ := hentries line hline
  refine ⟨⟨line, file, hportable, hfile⟩, expanded, added, ?_, hadds.congr ?_⟩
  · rw [expandContents, hdirect]
    exact hexpanded
  · rw [ContentsWellNamed, hdirect]
    exact ⟨fun h entries heq => Option.some.inj heq ▸ h, fun h => h _ rfl⟩

theorem endsInName_of_collected (hnested : NestedRuns fs root nested nestedExpansion nestedGood active)
    {name : String} (hname : isPortableRelativeMember name = true) {playlist : FsPath}
    (hplaylist : answer (regularMemberPath fs root name) = some playlist) {self after : Collector}
    (hactive : self.activePlaylists = active) (hfits : Fits self)
    (h : answer (collectPlaylistContents fs root nested playlist name self) = some after) :
    endsInName name = true := by
  by_contra hends
  have hbeside : Beside name (namedPieces name) :=
    ⟨fun line _ _ => by rw [namedPieces_nestedName hname, if_neg hends]⟩
  obtain ⟨⟨line, file, hline, hfile⟩, -⟩ := collectPlaylistContents_run hnested hbeside hactive hfits h
  rw [regularMemberPath_of_accepted fs root hname] at hplaylist
  exact memberAt_below fs root (namedPieces_of_accepted hname).1 (namedPieces_of_accepted hline).1 hplaylist hfile

end Entries

theorem filter_active {playlist : FsPath} {active : List FsPath} (h : playlist ∉ active) :
    (playlist :: active).filter (· ≠ playlist) = active := by
  rw [List.filter_cons_of_neg (by simp), List.filter_eq_self]
  intro other hother
  exact decide_eq_true fun heq => h (heq ▸ hother)

theorem collectNestedPlaylist_run (levels : ℕ) : ∀ active : List FsPath,
    NestedRuns fs root (collectNestedPlaylist fs root levels) (expandPlaylist fs root levels active)
      (PlaylistWellNamed fs root levels) active := by
  induction levels with
  | zero =>
    intro active name file self after _ _ _ _ h
    cases h
  | succ levels ih =>
    intro active name file self after hname hfile hactive hfits h
    rw [answer_eq_some, collectNestedPlaylist, bind_run_eq_ok] at h
    obtain ⟨playlist, u, hplaylist, h⟩ := h
    obtain ⟨hnew, h⟩ := demand_bind_run_eq_ok.mp h
    obtain ⟨last, u₁, hlast, h⟩ := bind_run_eq_ok.mp h
    cases h
    rw [io_run_eq_ok, hfile, Option.some_inj] at hplaylist
    subst hplaylist
    rw [hactive] at hnew
    have hcontents := answer_eq_some.mpr hlast
    have hinner : (⟨file :: self.activePlaylists, self.references, self.discCount⟩ : Collector).activePlaylists =
        file :: active := congrArg _ hactive
    have hends := endsInName_of_collected (ih (file :: active)) hname hfile hinner hfits hcontents
    obtain ⟨-, expanded, added, hexpanded, hadds⟩ :=
      collectPlaylistContents_run (ih (file :: active)) (beside_of_endsInName hname hends) hinner hfits hcontents
    refine ⟨expanded, added, ?_, ?_, hadds.fits, hadds.length, hadds.denotes⟩
    · rw [expandPlaylist, if_neg hnew]
      exact hexpanded
    · rw [hadds.result]
      dsimp only
      rw [filter_active (hactive ▸ hnew)]

/-- What `references` owes: the expansion of the playlist, under names that denote its paths. -/
structure Expands (path : FsPath) (found : List MediaReference) : Prop where
  expansion : ∃ discs ≤ maxDiscs, expandRoot fs path = some (found.map relativePath, discs)
  count : found.length ≤ 255
  portable : ∀ reference ∈ found, isPortableRelativeMember reference.declaredName = true

/-- A run that succeeds has expanded the playlist; its names denote the paths of the expansion exactly if no descriptor
is named with a slash behind it and no name is too long. -/
theorem references_expand_iff {path : FsPath} {found : List MediaReference}
    (h : answer (references fs path) = some found) : Expands fs path found ↔ WellNamed fs path := by
  rw [answer_eq_some, references, bind_run_eq_ok] at h
  obtain ⟨rootMetadata, u, -, h⟩ := h
  obtain ⟨-, h⟩ := demand_bind_run_eq_ok.mp h
  obtain ⟨collector, u₁, hroot, h⟩ := bind_run_eq_ok.mp h
  cases h
  obtain ⟨canonical, u₂, hcanonical, hroot⟩ := bind_run_eq_ok.mp hroot
  obtain ⟨last, u₃, hlast, hroot⟩ := bind_run_eq_ok.mp hroot
  cases hroot
  rw [io_run_eq_ok] at hcanonical
  obtain ⟨-, expanded, added, hexpanded, hadds⟩ := collectPlaylistContents_run
    (collectNestedPlaylist_run fs (parentDirectory path) maxRecursionDepth [canonical]) beside_root rfl
    ⟨Nat.zero_le _, Nat.zero_le _⟩ (answer_eq_some.mpr hlast)
  have hexpansion : expandRoot fs path = some expanded := by
    rw [expandRoot, hcanonical]
    exact hexpanded
  have hfound : last.references = added := by
    rw [hadds.result]
    rfl
  have hdiscs : expanded.2 ≤ maxDiscs := by
    have hfits := hadds.fits.2
    rw [hadds.result] at hfits
    simpa using hfits
  dsimp only
  rw [WellNamed, ← hadds.denotes, hfound]
  constructor
  · intro h
    obtain ⟨discs, -, heq⟩ := h.expansion
    rw [hexpansion, Option.some_inj] at heq
    exact ⟨congrArg Prod.fst heq, h.portable⟩
  · rintro ⟨hnames, hportable⟩
    refine ⟨⟨expanded.2, hdiscs, ?_⟩, ?_, hportable⟩
    · rw [hexpansion, ← hnames]
    · rw [← hfound]
      exact hadds.fits.1

section Example

/-- A playlist in a directory of its own, with this entry for the disc beside it. -/
def discTree (entry : String) : DirectoryTree where
  directories := [[], ["sets"]]
  files := [
    (["list.m3u"], utf8 "# discs\nsets/one.m3u\n"),
    (["sets", "one.m3u"], utf8 entry),
    (["sets", "disc.toc"], utf8 "TRACK AUDIO\nFILE \"track.bin\" 0\n"),
    (["sets", "track.bin"], [0])]

def listPath : FsPath := ⟨true, ["list.m3u"]⟩

theorem expands_disc_beside : WellNamed (discTree "disc.toc").fileSystem listPath := by
  have hrun : answer (references (discTree "disc.toc").fileSystem listPath) =
      some [⟨"sets/one.m3u"⟩, ⟨"sets/disc.toc"⟩, ⟨"sets/track.bin"⟩] := by decide +kernel
  refine (references_expand_iff (discTree "disc.toc").fileSystem hrun).mp ⟨⟨1, by decide, ?_⟩, by decide, ?_⟩
  · decide +kernel
  · decide +kernel

/-- Behind `disc.toc/` the track is looked for in `disc.toc`, as if that were a directory. -/
theorem slash_behind_descriptor : ¬∀ (tree : DirectoryTree) (path : FsPath) (found : List MediaReference),
    answer (references tree.fileSystem path) = some found → Expands tree.fileSystem path found := by
  intro h
  have hrun : answer (references (discTree "disc.toc/").fileSystem listPath) =
      some [⟨"sets/one.m3u"⟩, ⟨"sets/disc.toc/"⟩, ⟨"sets/disc.toc/track.bin"⟩] := by decide +kernel
  obtain ⟨discs, -, hexpansion⟩ := (h _ _ _ hrun).expansion
  have hpaths : expandRoot (discTree "disc.toc/").fileSystem listPath =
      some ([["sets", "one.m3u"], ["sets", "disc.toc"], ["sets", "track.bin"]], 1) := by decide +kernel
  rw [hpaths, Option.some_inj, Prod.mk.injEq] at hexpansion
  refine absurd hexpansion.1 ?_
  decide +kernel

end Example

end Expansion

end Emucap.Media.Playlist
