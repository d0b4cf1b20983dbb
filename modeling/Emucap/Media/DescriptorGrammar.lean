import Emucap.Lib.Grouped
import Emucap.Media.Cue
import Emucap.Media.FieldGrammar
import Emucap.Media.Toc
import Mathlib.Data.List.Chain

/-!
# The grammars of cue sheets and cdrdao tables

What the parsers of cue sheets and tables accept, stated for the whole text: the directives are the heads and members
of groups, one for each file of a sheet and each track of a table. The parsers' flags are those of `endsFilled`.
-/

namespace Emucap.Media

open Emucap.Lib

/-! ## Directives among lines -/

section directives
variable {ε State Line Directive : Type} {advance : State → Directive → Option State}

/-- The directives are gone over to a state with `P`. -/
def Leads (advance : State → Directive → Option State) (state : State) (directives : List Directive)
    (P : State → Prop) : Prop :=
  ∃ last, directives.foldlM advance state = some last ∧ P last

theorem leads_nil {state : State} {P : State → Prop} : Leads advance state [] P ↔ P state := by
  constructor
  · rintro ⟨_, hlast, h⟩
    obtain rfl := Option.some.inj hlast
    exact h
  · exact fun h => ⟨state, rfl, h⟩

theorem leads_cons {state : State} {directive : Directive} {rest : List Directive} {P : State → Prop} :
    Leads advance state (directive :: rest) P ↔ ∃ next, advance state directive = some next ∧
      Leads advance next rest P := by
  simp only [Leads, List.foldlM_cons, Option.bind_eq_bind, Option.bind_eq_some_iff]
  constructor
  · rintro ⟨last, ⟨next, hnext, hrun⟩, hend⟩
    exact ⟨next, hnext, last, hrun, hend⟩
  · rintro ⟨next, hnext, last, hrun, hend⟩
    exact ⟨last, ⟨next, hnext, hrun⟩, hend⟩

/-- Where a line that is no directive changes nothing, the lines are read one by one and their directives are gone
over in order. -/
theorem readLines_run {readLine : ℕ → State → Line → Except ε State} {run : ℕ → State → List Line → Except ε State}
    (hnil : ∀ i state, run i state [] = .ok state)
    (hcons : ∀ i state line rest, run i state (line :: rest) = readLine i state line >>= fun next => run (i + 1) next rest)
    {good : Line → Prop} {isDirective : Line → Bool} {reads : Line → Directive → Prop}
    (hline : ∀ {i state next line}, readLine i state line = .ok next ↔ good line ∧
      if isDirective line then ∃ directive, reads line directive ∧ advance state directive = some next
      else state = next) {i : ℕ} {state last : State} {text : List Line} :
    run i state text = .ok last ↔ (∀ line ∈ text, good line) ∧ ∃ directives,
      List.Forall₂ reads (text.filter isDirective) directives ∧ directives.foldlM advance state = some last := by
  induction text generalizing i state with
  | nil =>
    simp only [hnil, Except.ok.injEq, List.not_mem_nil, false_imp_iff, implies_true, List.filter_nil,
      List.forall₂_nil_left_iff, true_and, exists_eq_left, List.foldlM_nil]
    exact Option.some_inj.symm
  | cons line rest ih =>
    rw [hcons, bind_eq_ok, List.forall_mem_cons]
    simp only [hline, ih]
    by_cases hdirective : isDirective line = true
    · simp only [if_pos hdirective, List.filter_cons_of_pos hdirective, List.forall₂_cons_left_iff]
      constructor
      · rintro ⟨next, ⟨hgood, directive, hreads, hnext⟩, hgoods, directives, hall, hrun⟩
        refine ⟨⟨hgood, hgoods⟩, _, ⟨directive, directives, hreads, hall, rfl⟩, ?_⟩
        rw [List.foldlM_cons, hnext]
        exact hrun
      · rintro ⟨⟨hgood, hgoods⟩, _, ⟨directive, directives, hreads, hall, rfl⟩, hrun⟩
        rw [List.foldlM_cons] at hrun
        obtain ⟨next, hnext, hrun⟩ := Option.bind_eq_some_iff.mp hrun
        exact ⟨next, ⟨hgood, directive, hreads, hnext⟩, hgoods, directives, hall, hrun⟩
    · simp only [if_neg hdirective, List.filter_cons_of_neg hdirective]
      constructor
      · rintro ⟨_, ⟨hgood, rfl⟩, hgoods, hall⟩
        exact ⟨⟨hgood, hgoods⟩, hall⟩
      · rintro ⟨⟨hgood, hgoods⟩, hall⟩
        exact ⟨_, ⟨hgood, rfl⟩, hgoods, hall⟩

end directives

/-! ## Cue sheets -/

namespace Cue

def keyword (line : List Char) : String := String.ofList ((trimStart line).takeWhile fun c => !isWhitespace c)

def isTrackLine (line : List Char) : Bool := eqIgnoreAsciiCase (keyword line) "TRACK"

def isFileLine (line : List Char) : Bool := eqIgnoreAsciiCase (keyword line) "FILE"

def isDirective (line : List Char) : Bool := isFileLine line || isTrackLine line

/-- What a directive says: the name of a file, or the number of a track. -/
inductive ReadsDirective (line : List Char) : String ⊕ ℕ → Prop where
  | file {word name kind : String} : isFileLine line → LineFields (trimStart line) [word, name, kind] →
      isPortableRelativeMember name → cueFileTypes.any (eqIgnoreAsciiCase kind) → ReadsDirective line (.inl name)
  | track {word digits kind : String} {number : ℕ} : isTrackLine line →
      LineFields (trimStart line) [word, digits, kind] → digits.toList ≠ [] → digits.toList.all Char.isDigit →
      number = Nat.ofDigitChars 10 digits.toList 0 → 1 ≤ number → number ≤ 99 →
      cueTrackTypes.any (eqIgnoreAsciiCase kind) → ReadsDirective line (.inr number)

/-- What a directive makes of what has been found. -/
def advance (cue : FsPath) (reading : Reading) : String ⊕ ℕ → Option Reading
  | .inl name =>
    if (reading.references = [] ∨ reading.currentFileHasTrack) ∧ reading.references.length < maxReferencedFiles then
      some { reading with
        references := reading.references ++ [⟨name, (parentDirectory cue).join name, .track⟩]
        currentFileHasTrack := false }
    else none
  | .inr number =>
    if reading.references ≠ [] ∧ reading.lastTrack.all (fun previous => number = previous + 1) then
      some { reading with lastTrack := some number, currentFileHasTrack := true }
    else none

theorem tokens_of_length {tokens : List String} (h : tokens.length = 3) :
    tokens = [tokens.getD 0 "", tokens.getD 1 "", tokens.getD 2 ""] := by
  match tokens, h with
  | [_, _, _], _ => rfl

theorem tokenizeDirective_eq_ok {line : List Char} {cue : FsPath} {lineNumber : ℕ} {tokens : List String} :
    tokenizeDirective line cue lineNumber = .ok tokens ↔ LineFields line tokens ∧ tokens.length ≤ 3 :=
  splitFields_eq_ok

theorem readTrack_eq_ok {cue : FsPath} {lineNumber : ℕ} {reading reading' : Reading} {tokens : List String} :
    readTrack cue lineNumber reading tokens = .ok reading' ↔ ∃ word digits kind number, tokens = [word, digits, kind] ∧
      digits.toList ≠ [] ∧ digits.toList.all Char.isDigit ∧ number = Nat.ofDigitChars 10 digits.toList 0 ∧
      1 ≤ number ∧ number ≤ 99 ∧ cueTrackTypes.any (eqIgnoreAsciiCase kind) ∧
      advance cue reading (.inr number) = some reading' := by
  simp only [readTrack, require_bind_eq_ok, orError_bind_eq_ok, parseTrackNumber, advance,
    Option.ite_none_right_eq_some, Option.some.injEq, pure, Except.pure, Except.ok.injEq]
  constructor
  · rintro ⟨hfiles, ⟨hcount, hdigits, hkind⟩, number, ⟨⟨hne, -⟩, rfl⟩, ⟨⟨hlow, hhigh⟩, hnext⟩, hreading⟩
    exact ⟨_, _, _, _, tokens_of_length hcount, hne, hdigits, rfl, hlow, hhigh, hkind, ⟨hfiles, hnext⟩, hreading⟩
  · rintro ⟨word, digits, kind, number, rfl, hne, hdigits, rfl, hlow, hhigh, hkind, ⟨hfiles, hnext⟩, hreading⟩
    refine ⟨hfiles, ⟨rfl, hdigits, hkind⟩, _, ⟨⟨hne, ?_⟩, rfl⟩, ⟨⟨hlow, hhigh⟩, hnext⟩, hreading⟩
    show Nat.ofDigitChars 10 digits.toList 0 < 2 ^ 8
    omega

theorem ne_empty_of_portable {name : String} (h : isPortableRelativeMember name = true) : name ≠ "" := by
  rintro rfl
  exact absurd h (by decide +kernel)

theorem readFile_eq_ok {cue : FsPath} {lineNumber : ℕ} {reading reading' : Reading} {tokens : List String} :
    readFile cue lineNumber reading tokens = .ok reading' ↔ ∃ word name kind, tokens = [word, name, kind] ∧
      isPortableRelativeMember name ∧ cueFileTypes.any (eqIgnoreAsciiCase kind) ∧
      advance cue reading (.inl name) = some reading' := by
  simp only [readFile, require_bind_eq_ok, advance, Option.ite_none_right_eq_some, Option.some.injEq, pure,
    Except.pure, Except.ok.injEq, List.length_append, List.length_singleton, Nat.succ_le_iff]
  constructor
  · rintro ⟨hopen, ⟨hcount, -, hkind⟩, hportable, hmax, hreading⟩
    exact ⟨_, _, _, tokens_of_length hcount, hportable, hkind, ⟨hopen, hmax⟩, hreading⟩
  · rintro ⟨word, name, kind, rfl, hportable, hkind, ⟨hopen, hmax⟩, hreading⟩
    exact ⟨hopen, ⟨rfl, ne_empty_of_portable hportable, hkind⟩, hportable, hmax, hreading⟩

theorem isFileLine_of_isTrackLine {line : List Char} (h : isTrackLine line = true) : isFileLine line = false := by
  rw [isTrackLine, eqIgnoreAsciiCase, beq_iff_eq] at h
  rw [isFileLine, eqIgnoreAsciiCase, h]
  decide

theorem readDirective_eq_ok {cue : FsPath} {lineNumber : ℕ} {reading reading' : Reading} {line : List Char}
    (hdirective : isDirective line = true) :
    (do
      let tokens ← tokenizeDirective (trimStart line) cue lineNumber
      if isTrackLine line then readTrack cue lineNumber reading tokens
      else readFile cue lineNumber reading tokens) = .ok reading' ↔
      ∃ directive, ReadsDirective line directive ∧ advance cue reading directive = some reading' := by
  simp only [bind_eq_ok, tokenizeDirective_eq_ok]
  by_cases htrack : isTrackLine line = true
  · simp only [if_pos htrack, readTrack_eq_ok]
    constructor
    · rintro ⟨tokens, ⟨hfields, -⟩, word, digits, kind, number, rfl, hne, hdigits, hnumber, hlow, hhigh, hkind, hnext⟩
      exact ⟨.inr number, .track htrack hfields hne hdigits hnumber hlow hhigh hkind, hnext⟩
    · rintro ⟨directive, hreads, hnext⟩
      cases hreads with
      | file hfile _ _ _ =>
        rw [isFileLine_of_isTrackLine htrack] at hfile
        cases hfile
      | track _ hfields hne hdigits hnumber hlow hhigh hkind =>
        exact ⟨_, ⟨hfields, le_rfl⟩, _, _, _, _, rfl, hne, hdigits, hnumber, hlow, hhigh, hkind, hnext⟩
  · have hfile : isFileLine line = true := by simpa [isDirective, htrack] using hdirective
    simp only [if_neg htrack, readFile_eq_ok]
    constructor
    · rintro ⟨tokens, ⟨hfields, -⟩, word, name, kind, rfl, hportable, hkind, hnext⟩
      exact ⟨.inl name, .file hfile hfields hportable hkind, hnext⟩
    · rintro ⟨directive, hreads, hnext⟩
      cases hreads with
      | track htrack' _ _ _ _ _ _ _ => exact absurd htrack' htrack
      | file _ hfields hportable hkind =>
        exact ⟨_, ⟨hfields, le_rfl⟩, _, _, _, rfl, hportable, hkind, hnext⟩

theorem readLine_eq (cue : FsPath) (lineIndex : ℕ) (reading : Reading) (line : List Char) :
    readLine cue lineIndex reading line = (do
      require ((String.ofList line).utf8ByteSize ≤ maxCueLineBytes)
        (invalidData s!"CUE line exceeds {maxCueLineBytes} bytes at {cue.display}:{lineIndex + 1}")
      if isDirective line then
        let tokens ← tokenizeDirective (trimStart line) cue (lineIndex + 1)
        if isTrackLine line then readTrack cue (lineIndex + 1) reading tokens
        else readFile cue (lineIndex + 1) reading tokens
      else return reading) := rfl

theorem readLine_eq_ok {cue : FsPath} {lineIndex : ℕ} {reading reading' : Reading} {line : List Char} :
    readLine cue lineIndex reading line = .ok reading' ↔ (String.ofList line).utf8ByteSize ≤ maxCueLineBytes ∧
      if isDirective line then ∃ directive, ReadsDirective line directive ∧ advance cue reading directive = some reading'
      else reading = reading' := by
  rw [readLine_eq, require_bind_eq_ok]
  refine and_congr_right fun _ => ?_
  by_cases hdirective : isDirective line = true
  · rw [if_pos hdirective, if_pos hdirective]
    exact readDirective_eq_ok hdirective
  · rw [if_neg hdirective, if_neg hdirective]
    simp [pure, Except.pure]

theorem readLines_eq_ok {cue : FsPath} {lineIndex : ℕ} {reading reading' : Reading} {text : List (List Char)} :
    readLines cue lineIndex reading text = .ok reading' ↔
      (∀ line ∈ text, (String.ofList line).utf8ByteSize ≤ maxCueLineBytes) ∧ ∃ directives,
        List.Forall₂ ReadsDirective (text.filter isDirective) directives ∧
        directives.foldlM (advance cue) reading = some reading' :=
  @readLines_run _ _ _ _ (advance cue) (readLine cue) (readLines cue) (fun _ _ => rfl) (fun _ _ _ _ => rfl)
    (fun line => (String.ofList line).utf8ByteSize ≤ maxCueLineBytes) isDirective ReadsDirective readLine_eq_ok _ _ _ _

/-- The number of a track is one more than the last one. -/
def Successive (a b : ℕ) : Prop := b = a + 1

theorem isChain_toList_append {last : Option ℕ} {number : ℕ} {numbers : List ℕ} :
    (last.toList ++ number :: numbers).IsChain Successive ↔
      last.all (fun previous => number = previous + 1) = true ∧ (number :: numbers).IsChain Successive := by
  cases last with
  | none => simp
  | some previous => simp [Successive]

/-- The end of the text: there is a file, and the last one has a track. -/
def Complete (found : List CueReference) (last : Reading) : Prop :=
  last.references ≠ [] ∧ last.currentFileHasTrack = true ∧ last.references = found

theorem leads_iff {cue : FsPath} {directives : List (String ⊕ ℕ)} {reading : Reading} {found : List CueReference}
    (hmax : reading.references.length ≤ maxReferencedFiles) :
    Leads (advance cue) reading directives (Complete found) ↔
      endsFilled (decide (reading.references ≠ [])) reading.currentFileHasTrack directives ∧
        (reading.lastTrack.toList ++ members directives).IsChain Successive ∧
        reading.references.length + (heads directives).length ≤ maxReferencedFiles ∧
        found = reading.references ++
          (heads directives).map fun name => ⟨name, (parentDirectory cue).join name, .track⟩ := by
  induction directives generalizing reading with
  | nil =>
    have hchain : reading.lastTrack.toList.IsChain Successive := by
      cases reading.lastTrack with
      | none => exact .nil
      | some number => exact .singleton number
    simp only [leads_nil, Complete, endsFilled, members_nil, heads_nil, List.append_nil, List.map_nil,
      List.length_nil, Nat.add_zero, decide_eq_true_eq]
    constructor
    · rintro ⟨hfiles, htrack, rfl⟩
      exact ⟨⟨hfiles, htrack⟩, hchain, hmax, rfl⟩
    · rintro ⟨⟨hfiles, htrack⟩, -, -, rfl⟩
      exact ⟨hfiles, htrack, rfl⟩
  | cons directive rest ih =>
    rw [leads_cons]
    cases directive with
    | inl name =>
      simp only [advance, Option.ite_none_right_eq_some, Option.some.injEq, endsFilled, members_inl, heads_inl,
        List.length_cons, List.map_cons, decide_eq_true_eq]
      constructor
      · rintro ⟨_, ⟨⟨hopen, hcount⟩, rfl⟩, hrest⟩
        rw [ih (by simpa [Nat.succ_le_iff] using hcount)] at hrest
        obtain ⟨hends, hchain, hlimit, hfound⟩ := hrest
        simp only [List.length_append, List.length_singleton] at hlimit
        refine ⟨⟨fun hfiles => hopen.resolve_left hfiles, by simpa using hends⟩, hchain, by omega, by simpa using hfound⟩
      · rintro ⟨⟨hopen, hends⟩, hchain, hlimit, hfound⟩
        have hcount : reading.references.length < maxReferencedFiles := by omega
        refine ⟨_, ⟨⟨?_, hcount⟩, rfl⟩, ?_⟩
        · by_cases hfiles : reading.references = []
          · exact .inl hfiles
          · exact .inr (hopen hfiles)
        · rw [ih (by simpa [Nat.succ_le_iff] using hcount)]
          refine ⟨by simpa using hends, hchain, ?_, by simpa using hfound⟩
          simp only [List.length_append, List.length_singleton]
          omega
    | inr number =>
      simp only [advance, Option.ite_none_right_eq_some, Option.some.injEq, endsFilled, members_inr, heads_inr,
        isChain_toList_append, decide_eq_true_eq]
      constructor
      · rintro ⟨_, ⟨⟨hfiles, hnext⟩, rfl⟩, hrest⟩
        obtain ⟨hends, hchain, hlimit, hfound⟩ := (@ih ⟨reading.references, true, some number⟩ hmax).mp hrest
        exact ⟨⟨hfiles, by simpa [hfiles] using hends⟩, ⟨hnext, hchain⟩, hlimit, hfound⟩
      · rintro ⟨⟨hfiles, hends⟩, ⟨hnext, hchain⟩, hlimit, hfound⟩
        refine ⟨_, ⟨⟨hfiles, hnext⟩, rfl⟩, ?_⟩
        apply (@ih ⟨reading.references, true, some number⟩ hmax).mpr
        exact ⟨by simpa [hfiles] using hends, hchain, hlimit, hfound⟩

/-- The text is a cue sheet with these files: its directives are groups of a file with its tracks, numbered one after
the other. -/
structure IsSheet (text : List (List Char)) (names : List String) : Prop where
  lines : ∀ line ∈ text, (String.ofList line).utf8ByteSize ≤ maxCueLineBytes
  directives : ∃ directives groups, List.Forall₂ ReadsDirective (text.filter isDirective) directives ∧
    IsGrouped directives groups ∧ names = groups.map Group.head ∧
    (groups.flatMap Group.members).IsChain Successive
  count : names.length ≤ maxReferencedFiles

theorem parseReferencedFiles_eq_ok {cue : FsPath} {bytes : List UInt8} {text : List Char} {found : List CueReference}
    (htext : descriptorText bytes "CUE" = .ok text) :
    parseReferencedFiles cue bytes = .ok found ↔ ∃ names, IsSheet (lines (withoutMark text)) names ∧
      found = names.map fun name => ⟨name, (parentDirectory cue).join name, .track⟩ := by
  have hrun : parseReferencedFiles cue bytes = .ok found ↔
      (∀ line ∈ lines (withoutMark text), (String.ofList line).utf8ByteSize ≤ maxCueLineBytes) ∧ ∃ directives,
        List.Forall₂ ReadsDirective ((lines (withoutMark text)).filter isDirective) directives ∧
        Leads (advance cue) ⟨[], false, none⟩ directives (Complete found) := by
    rw [parseReferencedFiles, htext, ok_bind, bind_eq_ok]
    simp only [readLines_eq_ok, require_bind_eq_ok, Leads, Complete, pure, Except.pure, Except.ok.injEq]
    constructor
    · rintro ⟨last, ⟨hlines, directives, hall, hlast⟩, hend⟩
      exact ⟨hlines, directives, hall, last, hlast, hend⟩
    · rintro ⟨hlines, directives, hall, last, hlast, hend⟩
      exact ⟨last, ⟨hlines, directives, hall, hlast⟩, hend⟩
  rw [hrun]
  have hempty : List.length ([] : List CueReference) ≤ maxReferencedFiles := Nat.zero_le _
  constructor
  · rintro ⟨hlines, directives, hall, hleads⟩
    obtain ⟨hends, hchain, hcount, hfound⟩ := (@leads_iff cue directives ⟨[], false, none⟩ found hempty).mp hleads
    obtain ⟨groups, hgroups⟩ := endsFilled_iff.mp hends
    have hheads : heads directives = groups.map Group.head := by rw [hgroups.items, heads_flatMap]
    have hmembers : members directives = groups.flatMap Group.members := by rw [hgroups.items, members_flatMap]
    refine ⟨heads directives, ⟨hlines, ⟨directives, groups, hall, hgroups, hheads, ?_⟩, by simpa using hcount⟩, hfound⟩
    rw [← hmembers]
    exact hchain
  · rintro ⟨names, ⟨hlines, ⟨directives, groups, hall, hgroups, rfl, hchain⟩, hcount⟩, hfound⟩
    refine ⟨hlines, directives, hall, (@leads_iff cue directives ⟨[], false, none⟩ found hempty).mpr ?_⟩
    have hheads : heads directives = groups.map Group.head := by rw [hgroups.items, heads_flatMap]
    have hmembers : members directives = groups.flatMap Group.members := by rw [hgroups.items, members_flatMap]
    refine ⟨endsFilled_iff.mpr ⟨groups, hgroups⟩, ?_, by simpa [hheads] using hcount, by rw [hheads]; exact hfound⟩
    rw [hmembers]
    exact hchain

end Cue

/-! ## cdrdao tables -/

namespace Toc

def statement (sourceLine : List Char) : List Char := trim (beforeComment sourceLine)

def keyword (sourceLine : List Char) : String := String.ofList ((firstWord (statement sourceLine)).map Char.toUpper)

def isDirective (sourceLine : List Char) : Bool :=
  statement sourceLine ≠ [] ∧ keyword sourceLine ∈ ["TRACK", "FILE", "AUDIOFILE", "DATAFILE"]

inductive ReadsDirective (sourceLine : List Char) : Unit ⊕ String → Prop where
  | track {word mode : String} {options : List String} : keyword sourceLine = "TRACK" →
      LineFields (statement sourceLine) (word :: mode :: options) → trackTypes.any (eqIgnoreAsciiCase mode) →
      options.length ≤ 1 → (∀ channels ∈ options, ["RW", "RW_RAW"].any (eqIgnoreAsciiCase channels)) →
      ReadsDirective sourceLine (.inl ())
  | file {word name : String} {options : List String} : keyword sourceLine ≠ "TRACK" →
      LineFields (statement sourceLine) (word :: name :: options) → options.length ≤ 3 →
      isPortableRelativeMember name → ReadsDirective sourceLine (.inr name)

/-- What a directive makes of what has been found. -/
def advance (reading : Reading) : Unit ⊕ String → Option Reading
  | .inl _ =>
    if (reading.trackCount = 0 ∨ reading.currentTrackHasFile) ∧ reading.trackCount < 99 then
      some { reading with trackCount := reading.trackCount + 1, currentTrackHasFile := false }
    else none
  | .inr name =>
    if reading.trackCount ≠ 0 ∧ reading.references.length < maxGraphMembers - 1 then
      some { reading with references := reading.references ++ [⟨name⟩], currentTrackHasFile := true }
    else none

theorem readTrack_eq_ok {lineIndex : ℕ} {reading reading' : Reading} {fields : List String} :
    readTrack lineIndex reading fields = .ok reading' ↔ ∃ word mode options, fields = word :: mode :: options ∧
      trackTypes.any (eqIgnoreAsciiCase mode) ∧ options.length ≤ 1 ∧
      (∀ channels ∈ options, ["RW", "RW_RAW"].any (eqIgnoreAsciiCase channels)) ∧
      advance reading (.inl ()) = some reading' := by
  simp only [readTrack, require_bind_eq_ok, orError_bind_eq_ok, advance, Option.ite_none_right_eq_some,
    Option.some.injEq, pure, Except.pure, Except.ok.injEq]
  constructor
  · rintro ⟨hopen, ⟨hcount, hmode, hchannels⟩, _, ⟨-, rfl⟩, hmax, hreading⟩
    match fields, hcount with
    | [word, mode], _ =>
      exact ⟨word, mode, [], rfl, hmode, Nat.zero_le _, by simp, ⟨hopen, by omega⟩, hreading⟩
    | [word, mode, channels], _ =>
      exact ⟨word, mode, [channels], rfl, hmode, le_rfl, by simpa using hchannels rfl, ⟨hopen, by omega⟩, hreading⟩
  · rintro ⟨word, mode, options, rfl, hmode, hoptions, hchannels, ⟨hopen, hmax⟩, hreading⟩
    refine ⟨hopen, ⟨?_, hmode, ?_⟩, _, ⟨by omega, rfl⟩, by omega, hreading⟩
    · simp only [List.length_cons]
      omega
    · intro hlength
      match options, hlength with
      | [channels], _ => exact hchannels channels List.mem_cons_self

theorem readFile_eq_ok {lineIndex : ℕ} {reading reading' : Reading} {fields : List String} :
    readFile lineIndex reading fields = .ok reading' ↔ ∃ word name options, fields = word :: name :: options ∧
      options.length ≤ 3 ∧ isPortableRelativeMember name ∧ advance reading (.inr name) = some reading' := by
  simp only [readFile, require_bind_eq_ok, advance, Option.ite_none_right_eq_some, Option.some.injEq, pure,
    Except.pure, Except.ok.injEq]
  constructor
  · rintro ⟨⟨htracks, hlow, hhigh⟩, hportable, hmax, hreading⟩
    match fields, hlow with
    | word :: name :: options, _ =>
      simp only [List.length_cons] at hhigh
      exact ⟨word, name, options, rfl, by omega, hportable, ⟨htracks, hmax⟩, hreading⟩
  · rintro ⟨word, name, options, rfl, hoptions, hportable, ⟨htracks, hmax⟩, hreading⟩
    refine ⟨⟨htracks, ?_, ?_⟩, hportable, hmax, hreading⟩
    · simp only [List.length_cons]
      omega
    · simp only [List.length_cons]
      omega

theorem readLine_eq (lineIndex : ℕ) (reading : Reading) (sourceLine : List Char) :
    readLine lineIndex reading sourceLine = (do
      if isDirective sourceLine then
        let fields ← quotedFields (statement sourceLine) "TOC" (lineIndex + 1) 5
        if keyword sourceLine = "TRACK" then readTrack lineIndex reading fields
        else readFile lineIndex reading fields
      else return reading) := by
  simp only [isDirective, decide_eq_true_eq]
  rfl

theorem readLine_eq_ok {lineIndex : ℕ} {reading reading' : Reading} {sourceLine : List Char} :
    readLine lineIndex reading sourceLine = .ok reading' ↔
      if isDirective sourceLine then
        ∃ directive, ReadsDirective sourceLine directive ∧ advance reading directive = some reading'
      else reading = reading' := by
  rw [readLine_eq]
  by_cases hdirective : isDirective sourceLine = true
  · rw [if_pos hdirective, if_pos hdirective, bind_eq_ok]
    simp only [quotedFields, splitFields_eq_ok]
    by_cases htrack : keyword sourceLine = "TRACK"
    · simp only [if_pos htrack, readTrack_eq_ok]
      constructor
      · rintro ⟨_, ⟨hfields, -⟩, word, mode, options, rfl, hmode, hoptions, hchannels, hnext⟩
        exact ⟨.inl (), .track htrack hfields hmode hoptions hchannels, hnext⟩
      · rintro ⟨directive, hreads, hnext⟩
        cases hreads with
        | file hfile _ _ _ => exact absurd htrack hfile
        | track _ hfields hmode hoptions hchannels =>
          refine ⟨_, ⟨hfields, ?_⟩, _, _, _, rfl, hmode, hoptions, hchannels, hnext⟩
          simp only [List.length_cons]
          omega
    · simp only [if_neg htrack, readFile_eq_ok]
      constructor
      · rintro ⟨_, ⟨hfields, -⟩, word, name, options, rfl, hoptions, hportable, hnext⟩
        exact ⟨.inr name, .file htrack hfields hoptions hportable, hnext⟩
      · rintro ⟨directive, hreads, hnext⟩
        cases hreads with
        | track htrack' _ _ _ _ => exact absurd htrack' htrack
        | file _ hfields hoptions hportable =>
          refine ⟨_, ⟨hfields, ?_⟩, _, _, _, rfl, hoptions, hportable, hnext⟩
          simp only [List.length_cons]
          omega
  · rw [if_neg hdirective, if_neg hdirective]
    simp [pure, Except.pure]

theorem readLines_eq_ok {lineIndex : ℕ} {reading reading' : Reading} {text : List (List Char)} :
    readLines lineIndex reading text = .ok reading' ↔ ∃ directives,
      List.Forall₂ ReadsDirective (text.filter isDirective) directives ∧
      directives.foldlM advance reading = some reading' := by
  rw [@readLines_run _ _ _ _ advance readLine readLines (fun _ _ => rfl) (fun _ _ _ _ => rfl) (fun _ => True)
    isDirective ReadsDirective (by simp only [readLine_eq_ok, true_and, implies_true])]
  simp

/-- The end of the text: there is a track, and the last one has a file. -/
def Complete (found : List MediaReference) (last : Reading) : Prop :=
  last.trackCount ≠ 0 ∧ last.currentTrackHasFile = true ∧ last.references = found

theorem leads_iff {directives : List (Unit ⊕ String)} {reading : Reading} {found : List MediaReference}
    (htracks : reading.trackCount ≤ 99) (hfiles : reading.references.length ≤ maxGraphMembers - 1) :
    Leads advance reading directives (Complete found) ↔
      endsFilled (decide (reading.trackCount ≠ 0)) reading.currentTrackHasFile directives ∧
        reading.trackCount + (heads directives).length ≤ 99 ∧
        reading.references.length + (members directives).length ≤ maxGraphMembers - 1 ∧
        found = reading.references ++ (members directives).map MediaReference.mk := by
  induction directives generalizing reading with
  | nil =>
    simp only [leads_nil, Complete, endsFilled, members_nil, heads_nil, List.append_nil, List.map_nil,
      List.length_nil, Nat.add_zero, decide_eq_true_eq]
    constructor
    · rintro ⟨hbegun, hfile, rfl⟩
      exact ⟨⟨hbegun, hfile⟩, htracks, hfiles, rfl⟩
    · rintro ⟨⟨hbegun, hfile⟩, -, -, rfl⟩
      exact ⟨hbegun, hfile, rfl⟩
  | cons directive rest ih =>
    rw [leads_cons]
    cases directive with
    | inl =>
      simp only [advance, Option.ite_none_right_eq_some, Option.some.injEq, endsFilled, members_inl, heads_inl,
        List.length_cons, decide_eq_true_eq]
      constructor
      · rintro ⟨_, ⟨⟨hopen, hcount⟩, rfl⟩, hrest⟩
        obtain ⟨hends, hlimit, hmembers, hfound⟩ :=
          (@ih ⟨reading.references, reading.trackCount + 1, false⟩ hcount hfiles).mp hrest
        refine ⟨⟨fun hbegun => hopen.resolve_left hbegun, by simpa using hends⟩, ?_, hmembers, hfound⟩
        simp only at hlimit
        omega
      · rintro ⟨⟨hopen, hends⟩, hlimit, hmembers, hfound⟩
        have hcount : reading.trackCount < 99 := by omega
        refine ⟨_, ⟨⟨?_, hcount⟩, rfl⟩, ?_⟩
        · by_cases hbegun : reading.trackCount = 0
          · exact .inl hbegun
          · exact .inr (hopen hbegun)
        · apply (@ih ⟨reading.references, reading.trackCount + 1, false⟩ hcount hfiles).mpr
          refine ⟨by simpa using hends, ?_, hmembers, hfound⟩
          simp only
          omega
    | inr name =>
      simp only [advance, Option.ite_none_right_eq_some, Option.some.injEq, endsFilled, members_inr, heads_inr,
        List.length_cons, List.map_cons, decide_eq_true_eq]
      constructor
      · rintro ⟨_, ⟨⟨hbegun, hcount⟩, rfl⟩, hrest⟩
        have hfiles' : (reading.references ++ [MediaReference.mk name]).length ≤ maxGraphMembers - 1 := by
          rw [List.length_append]
          exact hcount
        obtain ⟨hends, hlimit, hmembers, hfound⟩ :=
          (@ih ⟨reading.references ++ [MediaReference.mk name], reading.trackCount, true⟩ htracks hfiles').mp hrest
        simp only [List.length_append, List.length_singleton] at hmembers
        exact ⟨⟨hbegun, by simpa [hbegun] using hends⟩, hlimit, by omega, by simpa using hfound⟩
      · rintro ⟨⟨hbegun, hends⟩, hlimit, hmembers, hfound⟩
        have hcount : reading.references.length < maxGraphMembers - 1 := by omega
        have hfiles' : (reading.references ++ [MediaReference.mk name]).length ≤ maxGraphMembers - 1 := by
          rw [List.length_append]
          exact hcount
        refine ⟨_, ⟨⟨hbegun, hcount⟩, rfl⟩, ?_⟩
        apply (@ih ⟨reading.references ++ [MediaReference.mk name], reading.trackCount, true⟩ htracks hfiles').mpr
        refine ⟨by simpa [hbegun] using hends, hlimit, ?_, by simpa using hfound⟩
        simp only [List.length_append, List.length_singleton]
        omega

/-- The text is a table whose tracks are read from these files. -/
structure IsTable (text : List (List Char)) (names : List String) : Prop where
  directives : ∃ directives groups, List.Forall₂ ReadsDirective (text.filter isDirective) directives ∧
    IsGrouped directives groups ∧ names = groups.flatMap Group.members ∧ groups.length ≤ 99
  count : names.length ≤ 255

theorem referencesOfText_eq_ok {text : List Char} {found : List MediaReference} :
    referencesOfText text = .ok found ↔ ∃ names, IsTable (lines text) names ∧ found = names.map MediaReference.mk := by
  have hrun : referencesOfText text = .ok found ↔ ∃ directives,
      List.Forall₂ ReadsDirective ((lines text).filter isDirective) directives ∧
      Leads advance ⟨[], 0, false⟩ directives (Complete found) := by
    rw [referencesOfText, bind_eq_ok]
    simp only [readLines_eq_ok, require_bind_eq_ok, Leads, Complete, pure, Except.pure, Except.ok.injEq]
    constructor
    · rintro ⟨last, ⟨directives, hall, hlast⟩, hend⟩
      exact ⟨directives, hall, last, hlast, hend⟩
    · rintro ⟨directives, hall, last, hlast, hend⟩
      exact ⟨last, ⟨directives, hall, hlast⟩, hend⟩
  have hempty : List.length ([] : List MediaReference) ≤ maxGraphMembers - 1 := Nat.zero_le _
  rw [hrun]
  constructor
  · rintro ⟨directives, hall, hleads⟩
    obtain ⟨hends, htracks, hfiles, hfound⟩ :=
      (@leads_iff directives ⟨[], 0, false⟩ found (Nat.zero_le _) hempty).mp hleads
    obtain ⟨groups, hgroups⟩ := endsFilled_iff.mp hends
    have hheads : heads directives = groups.map Group.head := by rw [hgroups.items, heads_flatMap]
    have hmembers : members directives = groups.flatMap Group.members := by rw [hgroups.items, members_flatMap]
    rw [hheads, List.length_map] at htracks
    exact ⟨members directives, ⟨⟨directives, groups, hall, hgroups, hmembers, by omega⟩, by simpa [maxGraphMembers] using hfiles⟩,
      hfound⟩
  · rintro ⟨names, ⟨⟨directives, groups, hall, hgroups, rfl, htracks⟩, hcount⟩, hfound⟩
    refine ⟨directives, hall, (@leads_iff directives ⟨[], 0, false⟩ found (Nat.zero_le _) hempty).mpr ?_⟩
    have hheads : heads directives = groups.map Group.head := by rw [hgroups.items, heads_flatMap]
    have hmembers : members directives = groups.flatMap Group.members := by rw [hgroups.items, members_flatMap]
    refine ⟨endsFilled_iff.mpr ⟨groups, hgroups⟩, ?_, ?_, by rw [hmembers]; exact hfound⟩
    · simpa [hheads] using htracks
    · rw [hmembers]
      simpa [maxGraphMembers] using hcount

end Toc

/-! ## Both descriptors -/

/-- A cue sheet is accepted just where its directives are files with their tracks, and a table where they are tracks
with their files; the result is the names in order. A line of a cue sheet has the fields of `quoted_fields`. -/
theorem descriptors_parse_their_grammar :
    (∀ cue bytes text, descriptorText bytes "CUE" = .ok text → ∀ found, Cue.parseReferencedFiles cue bytes = .ok found ↔
      ∃ names, Cue.IsSheet (lines (Cue.withoutMark text)) names ∧
        found = names.map fun name => ⟨name, (parentDirectory cue).join name, .track⟩) ∧
    (∀ {σ Handle : Type} (fs : FileSystem σ Handle) path s bytes t text,
      readDescriptor fs path "TOC" maxDescriptorBytes s = .ok bytes t → descriptorText bytes "TOC" = .ok text →
      ∀ found s', Toc.references fs path s = .ok found s' ↔
        s' = t ∧ ∃ names, Toc.IsTable (lines text) names ∧ found = names.map MediaReference.mk) ∧
    ∀ line cue lineNumber kind lineNumber',
      (∀ fields, Cue.tokenizeDirective line cue lineNumber = .ok fields ↔
        quotedFields line kind lineNumber' 3 = .ok fields) ∧
      ∀ fields, quotedFields line kind lineNumber' 3 = .ok fields ↔ LineFields line fields ∧ fields.length ≤ 3 := by
  refine ⟨?_, ?_, ?_⟩
  · intro cue bytes text htext found
    exact Cue.parseReferencedFiles_eq_ok htext
  · intro σ Handle fs path s bytes t text hread htext found s'
    rw [Toc.references, bind_run_of_ok hread, htext]
    show fromExcept (Toc.referencesOfText text) t = _ ↔ _
    rw [fromExcept_run_eq_ok, Toc.referencesOfText_eq_ok, and_comm, @eq_comm _ t]
  · intro line cue lineNumber kind lineNumber'
    exact ⟨fun fields => splitFields_eq_ok.trans splitFields_eq_ok.symm, fun fields => splitFields_eq_ok⟩

theorem descriptorText_utf8 {text : String} (kind : String) (h : findOffset isUnsupported 0 text.toList = none) :
    descriptorText (utf8 text) kind = .ok text.toList := by
  rw [descriptorText, fromUtf8_utf8, show orError _ (some text) = Except.ok text from rfl, ok_bind, h]
  rfl

def sampleSheet : String := "REM x\nFile \"a b.bin\" binary\n  TRACK 02 AUDIO\nTRACK 3 MODE1/2352\n"

theorem descriptors_parse_their_grammar_sample :
    Cue.parseReferencedFiles ⟨true, ["d", "x.cue"]⟩ (utf8 sampleSheet) =
        .ok [⟨"a b.bin", ⟨true, ["d", "a b.bin"]⟩, .track⟩] ∧
      ∃ names, Cue.IsSheet (lines (Cue.withoutMark sampleSheet.toList)) names ∧ names = ["a b.bin"] := by
  have htext : descriptorText (utf8 sampleSheet) "CUE" = .ok sampleSheet.toList :=
    descriptorText_utf8 "CUE" (by decide +kernel)
  have hparse : Cue.parseReferencedFiles ⟨true, ["d", "x.cue"]⟩ (utf8 sampleSheet) =
      .ok [⟨"a b.bin", ⟨true, ["d", "a b.bin"]⟩, .track⟩] := by
    rw [Cue.parseReferencedFiles, htext, ok_bind]
    decide +kernel
  obtain ⟨names, hsheet, hnames⟩ := (descriptors_parse_their_grammar.1 _ _ _ htext _).mp hparse
  refine ⟨hparse, names, hsheet, ?_⟩
  match names, hnames with
  | [name], hnames =>
    simp only [List.map_cons, List.map_nil, List.cons.injEq, Cue.CueReference.mk.injEq] at hnames
    rw [hnames.1.1]

end Emucap.Media
