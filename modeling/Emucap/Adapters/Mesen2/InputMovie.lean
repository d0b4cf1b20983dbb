import Emucap.InputMovie

/-!
# The input movie of a Mesen recording

`read_movie` of `emucap_recording.lua`: each line that is not empty is a row, whose offset is compared as a number and
whose buttons are compared as strings. On lines without blanks it returns exactly the rows that they hold.
-/

namespace Emucap.Adapters.Mesen2

open Emucap.Lib Emucap.InputMovie

def maxMovieBytes : ℕ := 1024 * 1024

def maxButtonsPerFrame : ℕ := 32

/-- The `input_movie` member of a recording request. -/
structure InputMovieParams where
  format : String
  port : ℤ
  frames : ℤ
  bytes : ℤ
  sha256 : List Char
  path : List Char
  deriving DecidableEq

/-- What `io.open` and `file:close` answer for a path. -/
inductive MovieFile where
  | openFailed (reason : String)
  | opened (contents : List Char) (closes : Bool)
  deriving DecidableEq

def digest (value : List Char) : Bool :=
  value.length == 64 && value.all fun c =>
    c.isDigit || ('a' ≤ c && c ≤ 'f') || ('A' ≤ c && c ≤ 'F')

/-- `line:match("^(%d+):(.*)$")`, with the digits taken by `tonumber`. -/
def matchRow (line : List Char) : Option (ℕ × List Char) :=
  match line.takeWhile Char.isDigit, line.dropWhile Char.isDigit with
  | [], _ => none
  | digit :: digits, ':' :: names => some (Nat.ofDigitChars 10 (digit :: digits) 0, names)
  | _ :: _, _ => none

def readButtons : Option (List Char) → List (List Char) → Except String (List (List Char))
  | _, [] => .ok []
  | previous, button :: rest => do
    require (¬ (button = [] ∨ ¬ button.all isButtonChar ∨ ∃ p ∈ previous, button ≤ p))
      "input_movie buttons are not canonical"
    let buttons ← readButtons (some button) rest
    return button :: buttons

/-- `(names .. ","):gmatch("([^,]*),")`, not entered where nothing stands after the colon. -/
def namePieces (names : List Char) : List (List Char) := if names = [] then [] else names.splitOn ','

def readRows : ℕ → List (List Char) → Except String (List (List (List Char)))
  | _, [] => .ok []
  | expected, line :: rest => do
    -- a line that does not match has no offset, and none is not the expected one
    let row ← orError "input_movie offsets must be dense from zero"
      ((matchRow line).filter fun row => row.1 = expected)
    let buttons ← readButtons none (namePieces row.2)
    require (buttons.length ≤ maxButtonsPerFrame) "input_movie button count exceeds the advertised limit"
    let movie ← readRows (expected + 1) rest
    return buttons :: movie

def readMovie (openFile : List Char → MovieFile) (params : Option InputMovieParams) (frames : ℕ) :
    Except String (Option (List (List (List Char)))) :=
  match params with
  | none => .ok none
  | some params => do
    require (params.format = inputMovieFormat ∧ params.port = 0 ∧ params.frames = frames ∧ 1 ≤ params.bytes ∧
      params.bytes ≤ maxMovieBytes ∧ digest params.sha256 ∧ params.path ≠ []) "input_movie identity is invalid"
    match openFile params.path with
    | .openFailed reason => .error ("input_movie open failed: " ++ reason)
    | .opened contents closes =>
      -- `file:read` returns nothing at the end of the file
      let text := contents.take (params.bytes.toNat + 1)
      require (closes ∧ text ≠ [] ∧ (text.length : ℤ) = params.bytes ∧ text.getLast? = some '\n')
        "input_movie size or terminal newline mismatch"
      let movie ← readRows 0 ((terminatedLines text).filter (· ≠ []))
      require (movie.length = frames) "input_movie frame count mismatch"
      return some movie

/-! ## What the reader accepts -/

/-- The names of a row are taken as they are, where each is valid and greater than those before. -/
theorem readButtons_eq_ok_iff {previous : Option (List Char)} {pieces buttons : List (List Char)} :
    readButtons previous pieces = .ok buttons ↔
      buttons = pieces ∧ (∀ button ∈ pieces, button ≠ [] ∧ button.all isButtonChar) ∧
        pieces.Pairwise (· < ·) ∧ ∀ p ∈ previous, ∀ button ∈ pieces, p < button := by
  induction pieces generalizing previous buttons with
  | nil =>
    constructor
    · rintro ⟨⟩
      simp
    · rintro ⟨rfl, -⟩
      rfl
  | cons button rest ih =>
    simp only [readButtons, bind_eq_ok, require_eq_ok, exists_const, ih, not_or, not_exists, not_and, not_le,
      not_not]
    constructor
    · rintro ⟨⟨hne, hchars, hprevious⟩, tail, ⟨htail, hvalid, hpairwise, hbutton⟩, h⟩
      cases h
      have hlt : ∀ b ∈ rest, button < b := hbutton button rfl
      refine ⟨by rw [htail], List.forall_mem_cons.mpr ⟨⟨hne, hchars⟩, hvalid⟩,
        List.pairwise_cons.mpr ⟨hlt, hpairwise⟩, ?_⟩
      intro p hp b hb
      rcases List.mem_cons.mp hb with rfl | hb
      · exact hprevious p hp
      · exact (hprevious p hp).trans (hlt b hb)
    · rintro ⟨rfl, hvalid, hpairwise, hprevious⟩
      obtain ⟨hlt, hpairwise⟩ := List.pairwise_cons.mp hpairwise
      obtain ⟨hbutton, hvalid⟩ := List.forall_mem_cons.mp hvalid
      refine ⟨⟨hbutton.1, hbutton.2, fun p hp => hprevious p hp button (by simp)⟩, rest, ?_, rfl⟩
      refine ⟨rfl, hvalid, hpairwise, ?_⟩
      rintro p ⟨rfl⟩ b hb
      exact hlt b hb

theorem matchRow_eq_some {line names : List Char} {offset : ℕ} (h : matchRow line = some (offset, names)) :
    ∃ digits, Numeral digits offset ∧ line = digits ++ ':' :: names := by
  refine ⟨line.takeWhile Char.isDigit, ?_⟩
  have hline := List.takeWhile_append_dropWhile (p := Char.isDigit) (l := line)
  have hdigits := List.all_eq_true.mp (List.all_takeWhile (p := Char.isDigit) (l := line))
  rw [matchRow] at h
  generalize line.takeWhile Char.isDigit = digits at h hline hdigits
  generalize line.dropWhile Char.isDigit = rest at h hline
  split at h
  · cases h
  · cases h
    exact ⟨⟨by simp, hdigits, rfl⟩, hline.symm⟩
  · cases h

theorem matchRow_of_numeral {digits names : List Char} {offset : ℕ} (h : Numeral digits offset) :
    matchRow (digits ++ ':' :: names) = some (offset, names) := by
  have hcolon : ':'.isDigit = false := by decide
  have htake : (digits ++ ':' :: names).takeWhile Char.isDigit = digits := by
    rw [List.takeWhile_append_of_pos h.isDigit]
    simp [hcolon]
  have hdrop : (digits ++ ':' :: names).dropWhile Char.isDigit = ':' :: names := by
    rw [List.dropWhile_append_of_pos h.isDigit]
    simp [hcolon]
  rw [matchRow, htake, hdrop]
  cases digits with
  | nil => exact absurd rfl h.nonempty
  | cons digit digits => simp [h.value]

theorem intercalate_namePieces (names : List Char) : [','].intercalate (namePieces names) = names := by
  rw [namePieces]
  split_ifs with h
  · rw [h]
    rfl
  · exact List.intercalate_splitOn ','

theorem namePieces_intercalate {buttons : List (List Char)}
    (hvalid : ∀ button ∈ buttons, button ≠ [] ∧ button.all isButtonChar) :
    namePieces ([','].intercalate buttons) = buttons := by
  cases buttons with
  | nil => rfl
  | cons button rest =>
    have hne : [','].intercalate (button :: rest) ≠ [] := by
      obtain ⟨c, b, rfl⟩ := List.exists_cons_of_ne_nil (hvalid button (by simp)).1
      cases rest with
      | nil => simp
      | cons next rest => simp [List.intercalate_cons_cons]
    rw [namePieces, if_neg hne]
    apply List.splitOn_intercalate _ _ (by simp)
    intro b hb hcomma
    have hcode := toNat_of_isButtonChar (List.all_eq_true.mp (hvalid b hb).2 _ hcomma)
    exact absurd hcode (by decide)

theorem readRows_eq_ok_iff {expected : ℕ} {ls : List (List Char)} {rows : List (List (List Char))}
    (hblank : [] ∉ ls) :
    readRows expected ls = .ok rows ↔ Reads maxButtonsPerFrame expected ls rows := by
  induction ls generalizing expected rows with
  | nil =>
    constructor
    · intro h
      cases h
      exact .nil
    · intro h
      cases h
      rfl
  | cons line rest ih =>
    obtain ⟨hline, hrest⟩ : [] ≠ line ∧ [] ∉ rest := by simpa using hblank
    simp only [readRows, bind_eq_ok, require_eq_ok, exists_const, orError_eq_ok, Option.filter_eq_some_iff,
      decide_eq_true_eq, ih hrest]
    constructor
    · rintro ⟨⟨offset, names⟩, ⟨hmatch, rfl⟩, buttons, hbuttons, hbounded, movie, hmovie, h⟩
      cases h
      obtain ⟨digits, hnumeral, rfl⟩ := matchRow_eq_some hmatch
      obtain ⟨hpieces, hvalid, hpairwise, -⟩ := (readButtons_eq_ok_iff).mp hbuttons
      have hnames := intercalate_namePieces names
      rw [← hpieces] at hvalid hpairwise hnames
      rw [← hnames]
      exact .row hnumeral ⟨hvalid, hpairwise, hbounded⟩ hmovie
    · intro h
      cases h with
      | blank => exact absurd rfl hline
      | @row _ digits buttons _ rows hnumeral hvalid hmovie =>
        refine ⟨_, ⟨matchRow_of_numeral hnumeral, rfl⟩, buttons, ?_, hvalid.bounded, rows, hmovie, rfl⟩
        rw [readButtons_eq_ok_iff, namePieces_intercalate hvalid.valid]
        exact ⟨rfl, hvalid.valid, hvalid.increasing, by simp⟩

theorem reads_filter_iff {maxButtons expected : ℕ} {ls : List (List Char)} {rows : List (List (List Char))} :
    Reads maxButtons expected (ls.filter (· ≠ [])) rows ↔ Reads maxButtons expected ls rows := by
  induction ls generalizing expected rows with
  | nil => rfl
  | cons line rest ih =>
    by_cases hline : line = []
    · subst hline
      rw [List.filter_cons_of_neg (by simp), ih]
      constructor
      · exact .blank
      · intro h
        generalize hls : [] :: rest = ls at h
        cases h with
        | nil => cases hls
        | blank h =>
          cases hls
          exact h
        | row => simp at hls
    · rw [List.filter_cons_of_pos (by simpa using hline)]
      constructor
      · intro h
        cases h with
        | blank => exact absurd rfl hline
        | row hnumeral hvalid h => exact .row hnumeral hvalid (ih.mp h)
      · intro h
        cases h with
        | blank => exact absurd rfl hline
        | row hnumeral hvalid h => exact .row hnumeral hvalid (ih.mpr h)

/-- The request that a movie file goes with. -/
structure Names (params : InputMovieParams) (text : List Char) (frames : ℕ) : Prop where
  format : params.format = inputMovieFormat
  port : params.port = 0
  frames : params.frames = frames
  bytes : params.bytes = text.length
  sha256 : digest params.sha256 = true
  path : params.path ≠ []

theorem readMovie_eq_ok {openFile : List Char → MovieFile} {params : InputMovieParams} {text : List Char}
    {closes : Bool} {frames : ℕ} {rows : List (List (List Char))}
    (hfile : openFile params.path = .opened text closes)
    (h : readMovie openFile (some params) frames = .ok (some rows)) :
    ∃ ls, text = unlines ls ∧ Reads maxButtonsPerFrame 0 ls rows ∧ rows.length = frames := by
  simp only [readMovie, hfile, bind_eq_ok, require_eq_ok, exists_const] at h
  obtain ⟨-, ⟨-, -, hlength, hlast⟩, movie, hrows, hcount, h⟩ := h
  cases h
  have hwhole : text.take (params.bytes.toNat + 1) = text := by
    rw [List.length_take] at hlength
    exact List.take_of_length_le (by omega)
  rw [hwhole] at hlast hrows
  obtain ⟨ls, hls, rfl⟩ := exists_unlines_of_getLast? hlast
  rw [terminatedLines_unlines hls, readRows_eq_ok_iff (by simp), reads_filter_iff] at hrows
  exact ⟨ls, rfl, hrows, hcount⟩

theorem readMovie_of_reads {openFile : List Char → MovieFile} {params : InputMovieParams}
    {ls : List (List Char)} {frames : ℕ} {rows : List (List (List Char))}
    (hfile : openFile params.path = .opened (unlines ls) true) (hnames : Names params (unlines ls) frames)
    (hreads : Reads maxButtonsPerFrame 0 ls rows) (hcount : rows.length = frames) (hframes : 1 ≤ frames)
    (hbytes : (unlines ls).length ≤ maxMovieBytes) :
    readMovie openFile (some params) frames = .ok (some rows) := by
  have hls := hreads.notMem_of_lt (show '\n'.toNat < 43 by decide)
  have hne : ls ≠ [] := by
    rintro rfl
    cases hreads
    simp at hcount
    omega
  have hlast := getLast?_unlines hne
  have htext : unlines ls ≠ [] := by
    intro h
    rw [h] at hlast
    cases hlast
  have hlength : 1 ≤ (unlines ls).length := List.length_pos_iff.mpr htext
  have hwhole : (unlines ls).take (params.bytes.toNat + 1) = unlines ls := by
    rw [hnames.bytes]
    exact List.take_of_length_le (by omega)
  simp only [readMovie, hfile, hwhole, bind_eq_ok, require_eq_ok, exists_const, terminatedLines_unlines hls]
  refine ⟨⟨hnames.format, hnames.port, hnames.frames, ?_, ?_, hnames.sha256, hnames.path⟩,
    ⟨trivial, htext, hnames.bytes.symm, hlast⟩, rows, ?_, hcount, rfl⟩
  · rw [hnames.bytes]
    omega
  · rw [hnames.bytes]
    omega
  · rw [readRows_eq_ok_iff (by simp), reads_filter_iff]
    exact hreads

end Emucap.Adapters.Mesen2
