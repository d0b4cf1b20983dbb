import Emucap.Media.Ccd
import Emucap.Media.FieldGrammar

/-!
# GDI descriptors

`parse_tracks` and `validate_graph` of `gdi.rs`. The first line that is not blank is the number of tracks, and a line of
six fields follows for each. The count is digits only; the numbers of a track are read by the standard parser, which
takes a sign before the digits. The bytes of a track are compared with the length of its file by a checked sum.
-/

namespace Emucap.Media.Gdi

open Emucap.Lib

def maxGdiBytes : ℕ := 16 * 1024 - 1

structure GdiTrack where
  reference : MediaReference
  offset : ℕ
  sectorSize : ℕ
  deriving DecidableEq

def i64FromStr (text : List Char) : Option ℤ :=
  if text.head? = some '-' then ((Ccd.digitsValue 10 text.tail).filter (· ≤ 2 ^ 63)).map fun n : ℕ => -(n : ℤ)
  else ((Ccd.digitsValue 10 (Ccd.withoutPlus text)).filter (· < 2 ^ 63)).map fun n : ℕ => (n : ℤ)

def u32FromStr (text : List Char) : Option ℕ := Ccd.u32FromStrRadix 10 text

def nonBlankLines (text : List Char) : List (List Char × ℕ) :=
  (lines text).zipIdx.filter fun entry => trim entry.1 ≠ []

def readCount (line : List Char) (lineIndex : ℕ) : Except IoError ℕ := do
  let header ← quotedFields (trim line) "GDI" (lineIndex + 1) 1
  require (header.length = 1 ∧ (header.getD 0 "").toList.all Char.isDigit) (invalidData "GDI track count is malformed")
  let trackCount ← orError (invalidData "GDI track count is invalid") (u32FromStr (header.getD 0 "").toList)
  require (3 ≤ trackCount ∧ trackCount ≤ 99) (invalidData "GDI track count must be within 3..99")
  return trackCount

def parseU32 (fields : List String) (lineIndex index : ℕ) (name : String) : Except IoError ℕ :=
  orError (invalidData s!"GDI {name} is invalid at line {lineIndex + 1}") (u32FromStr (fields.getD index "").toList)

def readTrack (expectedTrack : ℕ) (line : List Char) (lineIndex : ℕ) : Except IoError GdiTrack := do
  let fields ← quotedFields (trim line) "GDI" (lineIndex + 1) 6
  require (fields.length = 6) (invalidData s!"GDI track line {lineIndex + 1} must contain 6 fields")
  let track ← parseU32 fields lineIndex 0 "track number"
  let firstSector ← parseU32 fields lineIndex 1 "first sector"
  let control ← parseU32 fields lineIndex 2 "control"
  let sectorSize ← parseU32 fields lineIndex 3 "sector size"
  let offset ← orError (invalidData s!"GDI offset is invalid at line {lineIndex + 1}")
    (i64FromStr (fields.getD 5 "").toList)
  require (track = expectedTrack ∧ (control = 0 ∨ control = 4) ∧ (sectorSize = 2048 ∨ sectorSize = 2352) ∧
      0 ≤ offset ∧ (track = 1 → control = 4) ∧ (track = 2 → control = 0) ∧
      (track = 3 → control = 4 ∧ firstSector = 45000))
    (invalidData s!"GDI track semantics are invalid at line {lineIndex + 1}")
  require (isPortableRelativeMember (fields.getD 4 ""))
    (invalidData s!"GDI track path escapes or is not portable at line {lineIndex + 1}")
  return ⟨⟨fields.getD 4 ""⟩, offset.toNat, sectorSize⟩

def readTracks (trackCount : ℕ) : (left expectedTrack : ℕ) → List (List Char × ℕ) →
    Except IoError (List GdiTrack × List (List Char × ℕ))
  | 0, _, rest => .ok ([], rest)
  | _ + 1, _, [] => .error (invalidData s!"GDI declares {trackCount} tracks but ends early")
  | left + 1, expectedTrack, (line, lineIndex) :: rest => do
    let track ← readTrack expectedTrack line lineIndex
    let (tracks, rest) ← readTracks trackCount left (expectedTrack + 1) rest
    return (track :: tracks, rest)

def parseTracksOfText (text : List Char) : Except IoError (List GdiTrack) :=
  match nonBlankLines text with
  | [] => .error (invalidData "GDI is empty")
  | (firstLine, firstLineIndex) :: rest => do
    let trackCount ← readCount firstLine firstLineIndex
    let (tracks, rest) ← readTracks trackCount trackCount 1 rest
    require (rest = []) (invalidData "GDI contains more track lines than its declared count")
    return tracks

variable {σ Handle : Type} (fs : FileSystem σ Handle)

def parseTracks (path : FsPath) : Call σ (List GdiTrack) := do
  let bytes ← readDescriptor fs path "GDI" maxGdiBytes
  let text ← fromExcept (descriptorText bytes "GDI")
  fromExcept (parseTracksOfText text)

def checkBounds (path : FsPath) (track : GdiTrack) : Call σ Unit := do
  let file ← openRegularMemberNoFollow fs (parentDirectory path) track.reference.declaredName
  let metadata ← fs.fileMetadata file
  demand ((checkedAdd track.offset track.sectorSize).any (· ≤ metadata.len))
    (invalidData s!"GDI track offset is outside its file: {debugText track.reference.declaredName}")

def validateGraph (path : FsPath) : Call σ (List MediaReference) := do
  let tracks ← parseTracks fs path
  let references := tracks.map GdiTrack.reference
  let _ ← validateReferences fs path "GDI" references
  tracks.forM (checkBounds fs path)
  return references

/-! ## Numerals -/

def SpellsDigits (text : List Char) (n : ℕ) : Prop :=
  text ≠ [] ∧ (∀ c ∈ text, c.isDigit = true) ∧ n = Nat.ofDigitChars 10 text 0

def SpellsNumber (text : List Char) (n : ℕ) : Prop :=
  SpellsDigits text n ∨ ∃ digits, text = '+' :: digits ∧ SpellsDigits digits n

/-- Decimal digits that may follow a plus sign, or zeros that follow a minus sign. -/
def SpellsOffset (text : List Char) (n : ℕ) : Prop :=
  SpellsNumber text n ∨ n = 0 ∧ ∃ digits, text = '-' :: digits ∧ SpellsDigits digits n

theorem isDigit_of_digitValue {c : Char} {d : ℕ} (h : NumParse.digitValue 10 c = some d) : c.isDigit = true := by
  obtain ⟨hhex, hd⟩ := Option.filter_eq_some_iff.mp h
  have hlt : d < 10 := of_decide_eq_true hd
  rw [hexValue] at hhex
  have hrange : 48 ≤ c.toNat ∧ c.toNat ≤ 57 := by
    split_ifs at hhex with hdigit hlower hupper
    · exact hdigit
    · have := Option.some.inj hhex
      omega
    · have := Option.some.inj hhex
      omega
  rw [Char.isDigit, Bool.and_eq_true, decide_eq_true_eq, decide_eq_true_eq]
  exact hrange

theorem exists_of_mapM_eq_some {α β : Type} {f : α → Option β} {l : List α} {values : List β}
    (h : l.mapM f = some values) : ∀ a ∈ l, ∃ b, f a = some b := by
  induction l generalizing values with
  | nil => simp
  | cons a l ih =>
    rw [List.mapM_cons, Option.bind_eq_bind, Option.bind_eq_some_iff] at h
    obtain ⟨b, hfirst, h⟩ := h
    obtain ⟨rest, hrest, -⟩ := Option.bind_eq_some_iff.mp h
    exact List.forall_mem_cons.mpr ⟨⟨b, hfirst⟩, ih hrest⟩

theorem digitsValue_eq_some {digits : List Char} {n : ℕ} :
    Ccd.digitsValue 10 digits = some n ↔ SpellsDigits digits n := by
  have hvalue : (∀ c ∈ digits, c.isDigit = true) → digits ≠ [] →
      Ccd.digitsValue 10 digits = some (Nat.ofDigitChars 10 digits 0) := by
    intro hdigits hne
    have hfold : (digits.map fun c => c.toNat - 48).foldl (fun n d => n * 10 + d) 0 =
        Nat.ofDigitChars 10 digits 0 := by
      rw [List.foldl_map, Nat.ofDigitChars_eq_foldl]
      simp only [Nat.mul_comm, Char.reduceToNat]
    rw [Ccd.digitsValue, Ccd.mapM_digitValue hdigits]
    simp only [guard, if_pos hne]
    exact congrArg some hfold
  constructor
  · intro h
    have hne : digits ≠ [] := by
      rintro rfl
      cases h
    have hdigits : ∀ c ∈ digits, c.isDigit = true := by
      intro c hc
      obtain ⟨-, -, hrest⟩ := Option.bind_eq_some_iff.mp h
      obtain ⟨values, hvalues, -⟩ := Option.bind_eq_some_iff.mp hrest
      obtain ⟨d, hd⟩ := exists_of_mapM_eq_some hvalues c hc
      exact isDigit_of_digitValue hd
    rw [hvalue hdigits hne] at h
    exact ⟨hne, hdigits, (Option.some.inj h).symm⟩
  · rintro ⟨hne, hdigits, rfl⟩
    exact hvalue hdigits hne

theorem not_spellsDigits_of_head {sign : Char} {digits : List Char} {n : ℕ} (hsign : sign.isDigit = false) :
    ¬ SpellsDigits (sign :: digits) n := by
  rintro ⟨-, hdigits, -⟩
  have hdigit := hdigits sign List.mem_cons_self
  rw [hsign] at hdigit
  cases hdigit

theorem digitsValue_withoutPlus {text : List Char} {n : ℕ} :
    Ccd.digitsValue 10 (Ccd.withoutPlus text) = some n ↔ SpellsNumber text n := by
  rw [digitsValue_eq_some, Ccd.withoutPlus, SpellsNumber]
  by_cases hplus : text.head? = some '+'
  · obtain ⟨digits, rfl⟩ : ∃ digits, text = '+' :: digits := by
      cases text with
      | nil => cases hplus
      | cons c digits => exact ⟨digits, by rw [Option.some.inj hplus]⟩
    rw [if_pos hplus, List.tail_cons]
    constructor
    · exact fun h => .inr ⟨digits, rfl, h⟩
    · rintro (h | ⟨_, hdigits, h⟩)
      · exact absurd h (not_spellsDigits_of_head (by decide))
      · rwa [(List.cons.inj hdigits).2]
  · rw [if_neg hplus]
    constructor
    · exact fun h => .inl h
    · rintro (h | ⟨digits, rfl, -⟩)
      · exact h
      · exact absurd rfl hplus

theorem u32FromStr_eq_some {text : List Char} {n : ℕ} :
    u32FromStr text = some n ↔ SpellsNumber text n ∧ n < 2 ^ 32 := by
  rw [u32FromStr, Ccd.u32FromStrRadix, Option.filter_eq_some_iff, digitsValue_withoutPlus, decide_eq_true_eq]

/-- The offsets that are not negative: only a zero may have a minus sign. -/
theorem i64FromStr_nonneg {text : List Char} {offset : ℤ} (hoffset : 0 ≤ offset) :
    i64FromStr text = some offset ↔ SpellsOffset text offset.toNat ∧ offset < 2 ^ 63 := by
  rw [i64FromStr, SpellsOffset]
  by_cases hminus : text.head? = some '-'
  · obtain ⟨digits, rfl⟩ : ∃ digits, text = '-' :: digits := by
      cases text with
      | nil => cases hminus
      | cons c digits => exact ⟨digits, by rw [Option.some.inj hminus]⟩
    rw [if_pos hminus, List.tail_cons, Option.map_eq_some_iff]
    constructor
    · rintro ⟨n, hfilter, hneg⟩
      obtain ⟨hvalue, -⟩ := Option.filter_eq_some_iff.mp hfilter
      have hzero : n = 0 := by omega
      have hoffset : offset = 0 := by omega
      subst hzero hoffset
      exact ⟨.inr ⟨rfl, digits, rfl, (digitsValue_eq_some).mp hvalue⟩, by decide⟩
    · rintro ⟨(h | ⟨_, hdigits, -⟩) | ⟨hzero, _, hdigits, h⟩, -⟩
      · exact absurd h (not_spellsDigits_of_head (by decide))
      · exact absurd (List.cons.inj hdigits).1 (by decide)
      · obtain rfl := (List.cons.inj hdigits).2
        rw [hzero] at h
        refine ⟨0, ?_, by omega⟩
        rw [(digitsValue_eq_some).mpr h]
        rfl
  · rw [if_neg hminus, Option.map_eq_some_iff]
    constructor
    · rintro ⟨n, hfilter, rfl⟩
      obtain ⟨hvalue, hlt⟩ := Option.filter_eq_some_iff.mp hfilter
      have hlt' : n < 2 ^ 63 := of_decide_eq_true hlt
      exact ⟨.inl ((digitsValue_withoutPlus).mp hvalue), by omega⟩
    · rintro ⟨h | ⟨-, digits, rfl, -⟩, hlt⟩
      · refine ⟨offset.toNat, Option.filter_eq_some_iff.mpr ⟨(digitsValue_withoutPlus).mpr h, ?_⟩, by omega⟩
        rw [decide_eq_true_eq]
        omega
      · exact absurd rfl hminus

/-! ## The grammar -/

/-- The control field and the sector size that a track may have; the first three tracks have fixed places. -/
def Permitted (i firstSector control sectorSize : ℕ) : Prop :=
  (control = 0 ∨ control = 4) ∧ (sectorSize = 2048 ∨ sectorSize = 2352) ∧ (i = 1 → control = 4) ∧
    (i = 2 → control = 0) ∧ (i = 3 → control = 4 ∧ firstSector = 45000)

/-- The line of track `i`, where numbers and offsets are spelled in the given ways. -/
def IsTrackLine (numeral offsetNumeral : List Char → ℕ → Prop) (i : ℕ) (line : List Char) (track : GdiTrack) : Prop :=
  ∃ number sector control size name offset firstSector controlValue,
    LineFields (trim line) [number, sector, control, size, name, offset] ∧ numeral number.toList i ∧
      (numeral sector.toList firstSector ∧ firstSector < 2 ^ 32) ∧ numeral control.toList controlValue ∧
      numeral size.toList track.sectorSize ∧ (offsetNumeral offset.toList track.offset ∧ track.offset < 2 ^ 63) ∧
      Permitted i firstSector controlValue track.sectorSize ∧ isPortableRelativeMember name = true ∧
      track.reference = ⟨name⟩

def IsGdi (numeral offsetNumeral : List Char → ℕ → Prop) (text : List Char) (tracks : List GdiTrack) : Prop :=
  ∃ first rest count, (lines text).filter (fun line => trim line ≠ []) = first :: rest ∧
    LineFields (trim first) [count] ∧ SpellsDigits count.toList tracks.length ∧
    (3 ≤ tracks.length ∧ tracks.length ≤ 99) ∧ rest.length = tracks.length ∧
    ∀ (i : ℕ) line track, rest[i]? = some line → tracks[i]? = some track →
      IsTrackLine numeral offsetNumeral (i + 1) line track

theorem fields_of_length {fields : List String} (h : fields.length = 6) :
    fields = [fields.getD 0 "", fields.getD 1 "", fields.getD 2 "", fields.getD 3 "", fields.getD 4 "",
      fields.getD 5 ""] := by
  match fields, h with
  | [_, _, _, _, _, _], _ => rfl

theorem readCount_eq_ok {line : List Char} {lineIndex n : ℕ} : readCount line lineIndex = .ok n ↔
    ∃ count, LineFields (trim line) [count] ∧ SpellsDigits count.toList n ∧ 3 ≤ n ∧ n ≤ 99 := by
  rw [readCount, bind_eq_ok]
  simp only [require_bind_eq_ok, orError_bind_eq_ok, quotedFields, splitFields_eq_ok, u32FromStr_eq_some, pure,
    Except.pure, Except.ok.injEq]
  constructor
  · rintro ⟨header, ⟨hfields, -⟩, ⟨hlength, hdigits⟩, _, ⟨hspells, -⟩, hrange, rfl⟩
    match header, hlength with
    | [count], _ =>
      refine ⟨count, hfields, ?_, hrange⟩
      rcases hspells with h | ⟨digits, hplus, -⟩
      · exact h
      · have hsign : ('+' :: digits).all Char.isDigit = true := hplus ▸ hdigits
        rw [List.all_cons, Bool.and_eq_true] at hsign
        exact absurd hsign.1 (by decide)
  · rintro ⟨count, hfields, hspells, hlow, hhigh⟩
    refine ⟨[count], ⟨hfields, le_rfl⟩, ⟨rfl, ?_⟩, n, ⟨.inl hspells, by omega⟩, ⟨hlow, hhigh⟩, rfl⟩
    exact List.all_eq_true.mpr hspells.2.1

theorem readTrack_eq_ok {expectedTrack : ℕ} {line : List Char} {lineIndex : ℕ} {track : GdiTrack}
    (hexpected : expectedTrack < 2 ^ 32) : readTrack expectedTrack line lineIndex = .ok track ↔
      IsTrackLine SpellsNumber SpellsOffset expectedTrack line track := by
  rw [readTrack, bind_eq_ok]
  simp only [require_bind_eq_ok, orError_bind_eq_ok, quotedFields, splitFields_eq_ok, parseU32, u32FromStr_eq_some,
    pure, Except.pure, Except.ok.injEq]
  constructor
  · rintro ⟨fields, ⟨hfields, -⟩, hlength, _, ⟨hnumber, -⟩, firstSector, hsector, control, ⟨hcontrol, -⟩, size,
      ⟨hsize, -⟩, offset, hoffset, ⟨rfl, hcontrols, hsizes, hnonneg, hpermitted⟩, hportable, rfl⟩
    rw [fields_of_length hlength] at hfields
    rw [i64FromStr_nonneg hnonneg] at hoffset
    refine ⟨_, _, _, _, _, _, firstSector, control, hfields, hnumber, hsector, hcontrol, hsize, ⟨hoffset.1, ?_⟩,
      ⟨hcontrols, hsizes, hpermitted⟩, hportable, rfl⟩
    have hlt := hoffset.2
    simp only
    omega
  · rintro ⟨number, sector, control, size, name, offset, firstSector, controlValue, hfields, hnumber, hsector, hcontrol,
      hsize, ⟨hoffset, hlt⟩, ⟨hcontrols, hsizes, hpermitted⟩, hportable, hreference⟩
    refine ⟨_, ⟨hfields, le_rfl⟩, rfl, expectedTrack, ⟨hnumber, hexpected⟩, firstSector, hsector, controlValue,
      ⟨hcontrol, by omega⟩, track.sectorSize, ⟨hsize, by omega⟩, (track.offset : ℤ), ?_,
      ⟨rfl, hcontrols, hsizes, by omega, hpermitted⟩, hportable, ?_⟩
    · exact (i64FromStr_nonneg (by omega)).mpr ⟨hoffset, by omega⟩
    · cases track
      simp only at hreference
      rw [hreference]
      rfl

theorem readTracks_eq_ok {trackCount left expectedTrack : ℕ} {entries rest : List (List Char × ℕ)}
    {tracks : List GdiTrack} (hexpected : expectedTrack + left < 2 ^ 32) :
    readTracks trackCount left expectedTrack entries = .ok (tracks, rest) ↔ ∃ used, entries = used ++ rest ∧
      used.length = left ∧ tracks.length = left ∧ ∀ (i : ℕ) entry track, used[i]? = some entry →
        tracks[i]? = some track → IsTrackLine SpellsNumber SpellsOffset (expectedTrack + i) entry.1 track := by
  induction left generalizing expectedTrack entries tracks with
  | zero =>
    simp only [readTracks, Except.ok.injEq, Prod.mk.injEq]
    constructor
    · rintro ⟨rfl, rfl⟩
      exact ⟨[], rfl, rfl, rfl, by simp⟩
    · rintro ⟨used, rfl, hused, htracks, -⟩
      rw [List.length_eq_zero_iff] at hused htracks
      exact ⟨htracks.symm, by rw [hused, List.nil_append]⟩
  | succ left ih =>
    cases entries with
    | nil =>
      simp only [readTracks, reduceCtorEq, false_iff]
      rintro ⟨used, hused, hlength, -⟩
      rw [(List.append_eq_nil_iff.mp hused.symm).1] at hlength
      cases hlength
    | cons entry entries =>
      have hfirst : expectedTrack < 2 ^ 32 := by omega
      have hnext : expectedTrack + 1 + left < 2 ^ 32 := by omega
      obtain ⟨line, lineIndex⟩ := entry
      simp only [readTracks, bind_eq_ok, readTrack_eq_ok hfirst, Prod.exists, pure, Except.pure, Except.ok.injEq,
        Prod.mk.injEq]
      constructor
      · rintro ⟨track, htrack, tail, _, hrun, rfl, rfl⟩
        obtain ⟨used, rfl, hused, htail, heach⟩ := (ih hnext).mp hrun
        refine ⟨(line, lineIndex) :: used, rfl, by simpa using hused, by simpa using htail, ?_⟩
        intro i entry' track' hentry htrack'
        cases i with
        | zero =>
          obtain rfl := Option.some.inj hentry
          obtain rfl := Option.some.inj htrack'
          exact htrack
        | succ i =>
          have h := heach i entry' track' hentry htrack'
          rwa [Nat.add_assoc, Nat.add_comm 1 i] at h
      · rintro ⟨used, hentries, hused, htracks, heach⟩
        match used, tracks, hused, htracks with
        | first :: used, track :: tail, hused, htracks =>
          obtain ⟨rfl, rfl⟩ := List.cons.inj hentries
          refine ⟨track, heach 0 _ track rfl rfl, tail, rest, (ih hnext).mpr ⟨used, rfl, by simpa using hused,
            by simpa using htracks, ?_⟩, rfl, rfl⟩
          intro i entry' track' hentry htrack'
          have h := heach (i + 1) entry' track' hentry htrack'
          rwa [Nat.add_comm i 1, ← Nat.add_assoc] at h

theorem map_fst_nonBlankLines (text : List Char) :
    (nonBlankLines text).map Prod.fst = (lines text).filter fun line => trim line ≠ [] := by
  rw [nonBlankLines, show (fun entry : List Char × ℕ => decide (trim entry.1 ≠ [])) =
    (fun line => decide (trim line ≠ [])) ∘ Prod.fst from rfl, ← List.filter_map, List.zipIdx_map_fst]

theorem parseTracksOfText_eq_ok {text : List Char} {tracks : List GdiTrack} :
    parseTracksOfText text = .ok tracks ↔ IsGdi SpellsNumber SpellsOffset text tracks := by
  rw [parseTracksOfText, IsGdi, ← map_fst_nonBlankLines]
  cases nonBlankLines text with
  | nil => simp
  | cons entry entries =>
    obtain ⟨line, lineIndex⟩ := entry
    simp only [List.map_cons, List.cons.injEq]
    rw [bind_eq_ok]
    simp only [readCount_eq_ok, bind_eq_ok, Prod.exists, require_eq_ok, exists_const, pure, Except.pure, Except.ok.injEq]
    constructor
    · rintro ⟨n, ⟨count, hfields, hcount, hlow, hhigh⟩, found, rest, hrun, rfl, rfl⟩
      obtain ⟨used, rfl, hused, hfound, heach⟩ := (readTracks_eq_ok (by omega)).mp hrun
      subst hfound
      refine ⟨line, _, count, ⟨rfl, rfl⟩, hfields, hcount, ⟨hlow, hhigh⟩, by simpa using hused, ?_⟩
      intro i line' track hline htrack
      rw [List.append_nil, List.getElem?_map, Option.map_eq_some_iff] at hline
      obtain ⟨entry, hentry, rfl⟩ := hline
      rw [Nat.add_comm]
      exact heach i entry track hentry htrack
    · rintro ⟨first, rest, count, ⟨rfl, rfl⟩, hfields, hcount, ⟨hlow, hhigh⟩, hlength, heach⟩
      refine ⟨tracks.length, ⟨count, hfields, hcount, hlow, hhigh⟩, tracks, [],
        (readTracks_eq_ok (by omega)).mpr ⟨entries, by simp, by simpa using hlength, rfl, ?_⟩, rfl, rfl⟩
      intro i entry track hentry htrack
      rw [Nat.add_comm]
      exact heach i entry.1 track (by rw [List.getElem?_map, hentry, Option.map_some]) htrack

/-! ## Bounds -/

section
variable {path : FsPath} {s s' : σ}

theorem parseTracks_eq_ok {bytes : List UInt8} {text : List Char} {tracks : List GdiTrack} {t : σ}
    (hread : readDescriptor fs path "GDI" maxGdiBytes s = .ok bytes t) (htext : descriptorText bytes "GDI" = .ok text) :
    parseTracks fs path s = .ok tracks s' ↔ s' = t ∧ IsGdi SpellsNumber SpellsOffset text tracks := by
  rw [parseTracks, bind_run_of_ok hread, htext]
  show fromExcept (parseTracksOfText text) t = _ ↔ _
  rw [fromExcept_run_eq_ok, parseTracksOfText_eq_ok, and_comm, @eq_comm _ t]

theorem IsGdi.checkedAdd_eq {numeral offsetNumeral : List Char → ℕ → Prop} {text : List Char} {tracks : List GdiTrack}
    (h : IsGdi numeral offsetNumeral text tracks) {track : GdiTrack} (htrack : track ∈ tracks) :
    track.offset < 2 ^ 63 ∧ checkedAdd track.offset track.sectorSize = some (track.offset + track.sectorSize) := by
  obtain ⟨first, rest, count, -, -, -, -, hlength, heach⟩ := h
  obtain ⟨i, hi, rfl⟩ := List.mem_iff_getElem.mp htrack
  have hline : i < rest.length := by omega
  obtain ⟨number, sector, control, size, name, offset, firstSector, controlValue, -, -, -, -, -, ⟨-, hoffset⟩,
    ⟨-, hsizes, -⟩, -, -⟩ := heach i rest[i] tracks[i] (List.getElem?_eq_getElem hline) (List.getElem?_eq_getElem hi)
  exact ⟨hoffset, if_pos (by omega)⟩

structure InBounds (path : FsPath) (track : GdiTrack) : Prop where
  opened : ∃ file metadata u u' u'',
    openRegularMemberNoFollow fs (parentDirectory path) track.reference.declaredName u = .ok file u' ∧
      fs.fileMetadata file u' = .ok metadata u'' ∧ track.offset + track.sectorSize ≤ metadata.len

theorem inBounds_of_checkBounds {track : GdiTrack} (h : checkBounds fs path track s = .ok () s') :
    InBounds fs path track := by
  rw [checkBounds, bind_run_eq_ok] at h
  obtain ⟨file, u, hopen, h⟩ := h
  obtain ⟨metadata, u', hmetadata, h⟩ := bind_run_eq_ok.mp h
  rw [← bind_pure (demand _ _), demand_bind_run_eq_ok] at h
  obtain ⟨last, hsum, hle⟩ := (Option.any_eq_true _ _).mp h.1
  obtain ⟨-, rfl⟩ := checkedAdd_eq_some.mp hsum
  exact ⟨file, metadata, s, u, u', hopen, hmetadata, of_decide_eq_true hle⟩

theorem inBounds_of_forM {tracks : List GdiTrack} (h : tracks.forM (checkBounds fs path) s = .ok () s') :
    ∀ track ∈ tracks, InBounds fs path track := by
  induction tracks generalizing s with
  | nil => simp
  | cons track tracks ih =>
    change (checkBounds fs path track >>= fun _ => tracks.forM (checkBounds fs path)) s = .ok () s' at h
    obtain ⟨_, u, hfirst, hrest⟩ := bind_run_eq_ok.mp h
    exact List.forall_mem_cons.mpr ⟨inBounds_of_checkBounds fs hfirst, ih hrest⟩

theorem validateGraph_inBounds {found : List MediaReference} (h : validateGraph fs path s = .ok found s') :
    ∃ tracks t, parseTracks fs path s = .ok tracks t ∧ found = tracks.map GdiTrack.reference ∧
      ∀ track ∈ tracks, InBounds fs path track := by
  rw [validateGraph, bind_run_eq_ok] at h
  obtain ⟨tracks, t, hparse, h⟩ := h
  obtain ⟨_, u, -, h⟩ := bind_run_eq_ok.mp h
  obtain ⟨_, u', hbounds, h⟩ := bind_run_eq_ok.mp h
  cases h
  exact ⟨tracks, t, hparse, rfl, inBounds_of_forM fs hbounds⟩

end

/-- A descriptor is accepted just where the number of tracks, in digits, is followed by a line for each; a number of a
line may have a plus sign, and a zero offset a minus sign. A graph is accepted only where every track lies in its
file, and the sum of the offset and the sector size does not wrap. -/
theorem tracks_parse_and_fit (path : FsPath) (s : σ) :
    (∀ bytes t text, readDescriptor fs path "GDI" maxGdiBytes s = .ok bytes t → descriptorText bytes "GDI" = .ok text →
      ∀ tracks s', parseTracks fs path s = .ok tracks s' ↔
        s' = t ∧ IsGdi SpellsNumber SpellsOffset text tracks) ∧
    ∀ found s', validateGraph fs path s = .ok found s' → ∃ tracks t, parseTracks fs path s = .ok tracks t ∧
      found = tracks.map GdiTrack.reference ∧ ∀ track ∈ tracks, InBounds fs path track ∧ track.offset < 2 ^ 63 ∧
        checkedAdd track.offset track.sectorSize = some (track.offset + track.sectorSize) := by
  refine ⟨?_, ?_⟩
  · intro bytes t text hread htext tracks s'
    exact parseTracks_eq_ok fs hread htext
  · intro found s' h
    obtain ⟨tracks, t, hparse, hfound, hbounds⟩ := validateGraph_inBounds fs h
    refine ⟨tracks, t, hparse, hfound, fun track htrack => ⟨hbounds track htrack, ?_⟩⟩
    obtain ⟨bytes, u, hread, hrun⟩ := bind_run_eq_ok.mp hparse
    obtain ⟨text, u', hdecoded, -⟩ := bind_run_eq_ok.mp hrun
    have htext := (fromExcept_run_eq_ok.mp hdecoded).1
    exact ((parseTracks_eq_ok fs hread htext).mp hparse).2.checkedAdd_eq htrack

/-- The first track has a plus sign before its number, and a minus sign before its offset. -/
def signedText : String := "3\n+1 0 4 2352 a.bin -0\n2 600 0 2352 b.bin 0\n3 45000 4 2048 c.bin 0\n"

theorem signed_numbers_accepted :
    ¬ ∀ text tracks, parseTracksOfText text = .ok tracks ↔ IsGdi SpellsDigits SpellsDigits text tracks := by
  intro h
  have hparse : parseTracksOfText signedText.toList = .ok [⟨⟨"a.bin"⟩, 0, 2352⟩, ⟨⟨"b.bin"⟩, 0, 2352⟩,
    ⟨⟨"c.bin"⟩, 0, 2048⟩] := by decide +kernel
  obtain ⟨first, rest, count, hlines, -, -, -, -, heach⟩ := (h _ _).mp hparse
  have hrest : (first :: rest)[1]? = some "+1 0 4 2352 a.bin -0".toList := by
    rw [← hlines]
    decide +kernel
  obtain ⟨number, sector, control, size, name, offset, firstSector, controlValue, hfields, hnumber, -⟩ :=
    heach 0 _ _ hrest rfl
  have hsplit : quotedFields (trim "+1 0 4 2352 a.bin -0".toList) "GDI" 2 6 =
      .ok ["+1", "0", "4", "2352", "a.bin", "-0"] := by decide +kernel
  rw [quotedFields, splitFields_eq_ok.mpr ⟨hfields, show _ ≤ 6 from le_rfl⟩] at hsplit
  obtain ⟨rfl, -⟩ := List.cons.inj (Except.ok.inj hsplit)
  exact absurd (hnumber.2.1 '+' (by decide)) (by decide)

def sampleTree : DirectoryTree where
  directories := [[]]
  files := [(["x.gdi"], utf8 signedText), (["a.bin"], List.replicate 2352 0), (["b.bin"], List.replicate 2352 1),
    (["c.bin"], List.replicate 2352 2)]

theorem tracks_parse_and_fit_sample : ∃ found, found = [⟨"a.bin"⟩, ⟨"b.bin"⟩, ⟨"c.bin"⟩] ∧
    ∃ tracks : List GdiTrack, found = tracks.map GdiTrack.reference ∧
      ∀ track ∈ tracks, InBounds sampleTree.fileSystem ⟨true, ["x.gdi"]⟩ track := by
  have hrun : (match validateGraph sampleTree.fileSystem ⟨true, ["x.gdi"]⟩ () with
      | .ok found _ => some found
      | .error _ _ => none) = some [⟨"a.bin"⟩, ⟨"b.bin"⟩, ⟨"c.bin"⟩] := by decide +kernel
  cases hvalidate : validateGraph sampleTree.fileSystem ⟨true, ["x.gdi"]⟩ () with
  | error e t =>
    rw [hvalidate] at hrun
    cases hrun
  | ok found t =>
    rw [hvalidate] at hrun
    obtain ⟨tracks, -, -, hfound, hall⟩ := (tracks_parse_and_fit sampleTree.fileSystem _ ()).2 found t hvalidate
    exact ⟨found, Option.some.inj hrun, tracks, hfound, fun track htrack => (hall track htrack).1⟩

end Emucap.Media.Gdi
