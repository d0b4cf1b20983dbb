import Mathlib.Data.Char
import Mathlib.Data.List.Lex
import Mathlib.Data.List.Sort
import Emucap.Lib.Checked
import Emucap.Lib.Text

/-!
# Input movies

The movie grammar of `input_movie.rs`, one row `<frame>:<button>,<button>` for each frame. `canonicalRecordingMovie`
checks the rows of a recording and writes them again. Texts are lists of characters, in the byte order of their
encodings.
-/

namespace Emucap.InputMovie

open Emucap.Lib

def inputMovieFormat : String := "frame-full-state-1"

structure MovieFrame where
  frame : ℕ
  buttons : List (List Char)
  axes : List (List Char × ℤ)
  deriving DecidableEq

structure Movie where
  frames : List MovieFrame
  deriving DecidableEq

structure CanonicalMovie where
  movie : Movie
  bytes : List Char
  deriving DecidableEq

def CanonicalMovie.rows (m : CanonicalMovie) : List (List (List Char)) := m.movie.frames.map (·.buttons)

/-- A controller state written as JSON. -/
structure ControllerRow where
  buttons : List (List Char)
  axes : List (List Char × ℤ)
  deriving DecidableEq

/-- Why a text is no movie, or no recording movie. A line is counted from one. -/
inductive MovieError where
  /-- line {line}: missing ':' -/
  | missingColon (line : ℕ)
  /-- line {line}: frame is not an integer -/
  | frameNotInteger (line : ℕ)
  /-- line {line}: invalid controller state: {reason} -/
  | controllerState (line : ℕ) (reason : String)
  /-- movie exceeds {maxRows} frame rows -/
  | tooManyRows (maxRows : ℕ)
  /-- recording movie frame count must be positive -/
  | frameCount
  /-- recording movie must contain exactly {frames} nonblank rows -/
  | rowCount (frames : ℕ)
  /-- recording frame-full-state-1 does not encode controller axes -/
  | axes
  /-- recording movie offsets must be dense from zero: expected {expected}, got {frame} -/
  | offset (expected frame : ℕ)
  /-- recording movie frame {expected} exceeds {maxButtons} buttons -/
  | tooManyButtons (expected maxButtons : ℕ)
  /-- recording movie frame {expected} contains invalid button {button:?} -/
  | invalidButton (expected : ℕ) (button : List Char)
  /-- recording movie frame {expected} contains duplicate button {button} -/
  | duplicateButton (expected : ℕ) (button : List Char)
  deriving DecidableEq

/-! ## The grammar -/

/-- `str::parse::<u64>`: one plus sign may stand before the digits. -/
def parseU64 (text : List Char) : Option ℕ :=
  let digits := if text.head? = some '+' then text.tail else text
  if digits ≠ [] ∧ digits.all Char.isDigit ∧ Nat.ofDigitChars 10 digits 0 < 2 ^ 64 then
    some (Nat.ofDigitChars 10 digits 0)
  else none

section grammar
-- `serde_json::from_str` for a controller state
variable (decode : List Char → Except String ControllerRow)

def rowState (index : ℕ) (buttons : List Char) : Except MovieError ControllerRow :=
  if (buttons.dropWhile isWhitespace).head? = some '{' then
    (decode buttons).mapError (.controllerState (index + 1))
  else
    .ok ⟨((buttons.splitOn ',').map fun button => (trim button).map Char.toLower).filter (· ≠ []), []⟩

def parseRows (maxRows : ℕ) : ℕ → List MovieFrame → List (List Char) → Except MovieError (List MovieFrame)
  | _, frames, [] => .ok frames
  | index, frames, raw :: rest =>
    if trim raw = [] then parseRows maxRows (index + 1) frames rest
    else do
      let row ← orError (.missingColon (index + 1)) (splitOnce ':' (trim raw))
      let frame ← orError (.frameNotInteger (index + 1)) (parseU64 (trim row.1))
      let state ← rowState decode index row.2
      require (frames.length < maxRows) (.tooManyRows maxRows)
      parseRows maxRows (index + 1) (frames ++ [⟨frame, state.buttons, state.axes⟩]) rest

def parseMovieBounded (text : List Char) (maxRows : ℕ) : Except MovieError Movie := do
  let frames ← parseRows decode maxRows 0 [] (lines text)
  return ⟨frames.mergeSort fun a b => a.frame ≤ b.frame⟩

def parseMovie (text : List Char) : Except MovieError Movie :=
  parseMovieBounded decode text (2 ^ 64 - 1)

/-! ## The canonical form -/

def isButtonChar (c : Char) : Bool := c.isLower || c.isDigit || c == '_' || c == '+' || c == '-'

def seeButtons (expected : ℕ) : List (List Char) → List (List Char) → Except MovieError (List (List Char))
  | seen, [] => .ok seen
  | seen, button :: rest => do
    require (button ≠ [] ∧ button.all isButtonChar) (.invalidButton expected button)
    require (button ∉ seen) (.duplicateButton expected button)
    seeButtons expected (seen.orderedInsert (· ≤ ·) button) rest

def renderRow (expected : ℕ) (buttons : List (List Char)) : List Char :=
  Nat.toDigits 10 expected ++ ':' :: [','].intercalate buttons ++ ['\n']

def canonicalRows (maxButtons : ℕ) : ℕ → List MovieFrame → Except MovieError (List MovieFrame × List Char)
  | _, [] => .ok ([], [])
  | expected, frame :: rest => do
    require (frame.frame = expected) (.offset expected frame.frame)
    require (frame.buttons.length ≤ maxButtons) (.tooManyButtons expected maxButtons)
    let buttons ← seeButtons expected [] frame.buttons
    let tail ← canonicalRows maxButtons (expected + 1) rest
    return (⟨frame.frame, buttons, frame.axes⟩ :: tail.1, renderRow expected buttons ++ tail.2)

def canonicalRecordingMovie (text : List Char) (frames : UInt64) (maxButtonsPerFrame : ℕ) :
    Except MovieError CanonicalMovie := do
  let movie ← parseMovie decode text
  require (frames ≠ 0) .frameCount
  require (movie.frames.length = frames.toNat) (.rowCount frames.toNat)
  require (∀ frame ∈ movie.frames, frame.axes = []) .axes
  let canonical ← canonicalRows maxButtonsPerFrame 0 movie.frames
  return ⟨⟨canonical.1⟩, canonical.2⟩

end grammar

/-! ## Rows -/

/-- What a canonical row holds: valid names in strictly increasing order, not more than the row admits. -/
structure ValidRow (maxButtons : ℕ) (buttons : List (List Char)) : Prop where
  valid : ∀ button ∈ buttons, button ≠ [] ∧ button.all isButtonChar
  increasing : buttons.Pairwise (· < ·)
  bounded : buttons.length ≤ maxButtons

/-- The canonical text of rows, the first of them with offset `expected`. -/
def render : ℕ → List (List (List Char)) → List Char
  | _, [] => []
  | expected, buttons :: rows => renderRow expected buttons ++ render (expected + 1) rows

def rowFrames : ℕ → List (List (List Char)) → List MovieFrame
  | _, [] => []
  | expected, buttons :: rows => ⟨expected, buttons, []⟩ :: rowFrames (expected + 1) rows

theorem orderedInsert_of_forall_lt {seen : List (List Char)} {button : List Char}
    (h : ∀ b ∈ seen, b < button) : seen.orderedInsert (· ≤ ·) button = seen ++ [button] := by
  induction seen with
  | nil => rfl
  | cons b seen ih =>
    rw [List.orderedInsert_cons, if_neg (not_le.mpr (h b (by simp))), ih fun b hb => h b (by simp [hb])]
    rfl

theorem seeButtons_of_increasing {expected : ℕ} {seen buttons : List (List Char)}
    (hvalid : ∀ button ∈ buttons, button ≠ [] ∧ button.all isButtonChar)
    (hincreasing : (seen ++ buttons).Pairwise (· < ·)) :
    seeButtons expected seen buttons = .ok (seen ++ buttons) := by
  induction buttons generalizing seen with
  | nil => simp [seeButtons]
  | cons button rest ih =>
    have hlt : ∀ b ∈ seen, b < button := fun b hb =>
      (List.pairwise_append.mp hincreasing).2.2 b hb button (by simp)
    have hnot : button ∉ seen := fun hmem => lt_irrefl _ (hlt button hmem)
    rw [seeButtons, require_bind_eq_ok, require_bind_eq_ok]
    refine ⟨hvalid button (by simp), hnot, ?_⟩
    have hassoc : seen ++ [button] ++ rest = seen ++ button :: rest := by simp
    rw [orderedInsert_of_forall_lt hlt, ← hassoc]
    exact ih (fun b hb => hvalid b (by simp [hb])) (hassoc ▸ hincreasing)

theorem seeButtons_eq_ok {expected : ℕ} {seen buttons out : List (List Char)}
    (h : seeButtons expected seen buttons = .ok out)
    (hvalid : ∀ button ∈ seen, button ≠ [] ∧ button.all isButtonChar)
    (hsorted : seen.Pairwise (· ≤ ·)) (hnodup : seen.Nodup) :
    (∀ button ∈ out, button ≠ [] ∧ button.all isButtonChar) ∧ out.Pairwise (· < ·) ∧
      out.length = seen.length + buttons.length := by
  induction buttons generalizing seen with
  | nil =>
    cases h
    refine ⟨hvalid, ?_, by simp⟩
    exact (hsorted.and hnodup).imp fun h => lt_of_le_of_ne h.1 h.2
  | cons button rest ih =>
    rw [seeButtons, require_bind_eq_ok, require_bind_eq_ok] at h
    obtain ⟨hbutton, hnot, h⟩ := h
    have hperm := List.perm_orderedInsert (· ≤ ·) button seen
    have hseen : ∀ b ∈ seen.orderedInsert (· ≤ ·) button, b ≠ [] ∧ b.all isButtonChar := by
      intro b hb
      rcases List.mem_cons.mp (hperm.mem_iff.mp hb) with rfl | hmem
      · exact hbutton
      · exact hvalid b hmem
    obtain ⟨hout, hlt, hlength⟩ := ih h hseen (hsorted.orderedInsert button seen)
      (hperm.nodup_iff.mpr (List.nodup_cons.mpr ⟨hnot, hnodup⟩))
    refine ⟨hout, hlt, ?_⟩
    rw [hlength, List.orderedInsert_length, List.length_cons]
    omega

theorem canonicalRows_eq_ok {maxButtons expected : ℕ} {frames out : List MovieFrame} {text : List Char}
    (h : canonicalRows maxButtons expected frames = .ok (out, text)) :
    text = render expected (out.map (·.buttons)) ∧ (∀ frame ∈ out, ValidRow maxButtons frame.buttons) ∧
      out.length = frames.length := by
  induction frames generalizing expected out text with
  | nil =>
    cases h
    exact ⟨rfl, by simp, rfl⟩
  | cons frame frames ih =>
    simp only [canonicalRows, bind_eq_ok, require_eq_ok, exists_const] at h
    obtain ⟨hoffset, hbounded, buttons, hsee, ⟨tail, canonical⟩, htail, h⟩ := h
    cases h
    obtain ⟨htext, hvalid, hlength⟩ := ih htail
    obtain ⟨hbuttons, hincreasing, hcount⟩ := seeButtons_eq_ok hsee (by simp) .nil .nil
    refine ⟨by simp [render, htext], ?_, by simp [hlength]⟩
    intro frame' hframe'
    rcases List.mem_cons.mp hframe' with rfl | hmem
    · exact ⟨hbuttons, hincreasing, by simpa [hcount] using hbounded⟩
    · exact hvalid frame' hmem

theorem canonicalRows_rowFrames {maxButtons : ℕ} {rows : List (List (List Char))}
    (hrows : ∀ buttons ∈ rows, ValidRow maxButtons buttons) (expected : ℕ) :
    canonicalRows maxButtons expected (rowFrames expected rows) =
      .ok (rowFrames expected rows, render expected rows) := by
  induction rows generalizing expected with
  | nil => rfl
  | cons buttons rows ih =>
    have hrow := hrows buttons (by simp)
    have hsee : seeButtons expected [] buttons = .ok buttons :=
      seeButtons_of_increasing hrow.valid hrow.increasing
    simp only [rowFrames, canonicalRows, bind_eq_ok, require_eq_ok, exists_const]
    refine ⟨trivial, hrow.bounded, buttons, hsee, _, ih (fun b hb => hrows b (by simp [hb])) _, rfl⟩

theorem canonicalRecordingMovie_eq_ok {decode : List Char → Except String ControllerRow} {text : List Char}
    {frames : UInt64} {maxButtons : ℕ} {m : CanonicalMovie}
    (h : canonicalRecordingMovie decode text frames maxButtons = .ok m) :
    m.bytes = render 0 m.rows ∧
      (∀ frame ∈ m.movie.frames, ValidRow maxButtons frame.buttons) ∧
      m.movie.frames.length = frames.toNat ∧ frames ≠ 0 := by
  simp only [canonicalRecordingMovie, bind_eq_ok, require_eq_ok, exists_const] at h
  obtain ⟨movie, -, hpositive, hcount, -, ⟨out, canonical⟩, hrows, h⟩ := h
  cases h
  obtain ⟨htext, hvalid, hlength⟩ := canonicalRows_eq_ok hrows
  exact ⟨htext, hvalid, by simpa [hlength] using hcount, hpositive⟩

/-! ## Texts and their rows -/

theorem toNat_of_isButtonChar {c : Char} (h : isButtonChar c = true) :
    (97 ≤ c.toNat ∧ c.toNat ≤ 122) ∨ (48 ≤ c.toNat ∧ c.toNat ≤ 57) ∨ c.toNat = 95 ∨ c.toNat = 43 ∨
      c.toNat = 45 := by
  have h : (((((decide (97 ≤ c.val) && decide (c.val ≤ 122)) || (decide (48 ≤ c.val) && decide (c.val ≤ 57))) ||
    c == '_') || c == '+') || c == '-') = true := h
  simp only [Bool.or_eq_true, Bool.and_eq_true, decide_eq_true_eq, beq_iff_eq, UInt32.le_iff_toNat_le] at h
  rcases h with (((hlower | hdigit) | rfl) | rfl) | rfl
  · exact .inl hlower
  · exact .inr (.inl hdigit)
  all_goals decide

/-- The characters between the colon and the newline of a canonical row. -/
def IsNamesChar (c : Char) : Prop := c = ',' ∨ isButtonChar c = true

theorem IsNamesChar.toNat {c : Char} (h : IsNamesChar c) : 43 ≤ c.toNat ∧ c.toNat ≤ 122 ∧ c.toNat ≠ 58 := by
  rcases h with rfl | h
  · decide
  · have hcode := toNat_of_isButtonChar h
    omega

theorem not_isWhitespace_of_toNat {c : Char} (h : 33 ≤ c.toNat ∧ c.toNat ≤ 122) : isWhitespace c = false := by
  simp only [isWhitespace, Bool.or_eq_false_iff, Bool.and_eq_false_iff, decide_eq_false_iff_not,
    beq_eq_false_iff_ne]
  omega

theorem trim_of_toNat {cs : List Char} (h : ∀ c ∈ cs, 33 ≤ c.toNat ∧ c.toNat ≤ 122) : trim cs = cs :=
  trim_eq_self (fun c hc => not_isWhitespace_of_toNat (h c (List.mem_of_head? hc)))
    (fun c hc => not_isWhitespace_of_toNat (h c (List.mem_of_getLast? hc)))

theorem toLower_of_isButtonChar {c : Char} (h : isButtonChar c = true) : c.toLower = c := by
  have hcode := toNat_of_isButtonChar h
  refine dif_neg ?_
  rintro ⟨hge, hle⟩
  have hge : 65 ≤ c.toNat := UInt32.le_iff_toNat_le.mp hge
  have hle : c.toNat ≤ 90 := UInt32.le_iff_toNat_le.mp hle
  omega

theorem isNamesChar_of_mem {buttons : List (List Char)}
    (hvalid : ∀ button ∈ buttons, button ≠ [] ∧ button.all isButtonChar) {c : Char}
    (hc : c ∈ [','].intercalate buttons) : IsNamesChar c := by
  induction buttons with
  | nil => simp at hc
  | cons button rest ih =>
    have hrest := ih fun b hb => hvalid b (by simp [hb])
    have hbutton : c ∈ button → IsNamesChar c := fun h =>
      .inr (List.all_eq_true.mp (hvalid button (by simp)).2 c h)
    cases rest with
    | nil => exact hbutton (by simpa using hc)
    | cons next rest =>
      rw [List.intercalate_cons_cons] at hc
      simp only [List.append_assoc, List.mem_append, List.mem_singleton] at hc
      rcases hc with h | h | h
      · exact hbutton h
      · exact .inl h
      · exact hrest h

/-- `digits` is a decimal numeral of `n`. -/
structure Numeral (digits : List Char) (n : ℕ) : Prop where
  nonempty : digits ≠ []
  isDigit : ∀ c ∈ digits, c.isDigit = true
  value : Nat.ofDigitChars 10 digits 0 = n

theorem Numeral.toDigits (n : ℕ) : Numeral (Nat.toDigits 10 n) n :=
  ⟨Nat.toDigits_ne_nil, fun _ hc => Nat.isDigit_of_mem_toDigits (by decide) (by decide) hc,
    Nat.ofDigitChars_ten_toDigits⟩

/-- The lines of a text that holds `rows`, the first with offset `expected`: blank lines may stand between
them, and an offset may be padded with zeros. -/
inductive Reads (maxButtons : ℕ) : ℕ → List (List Char) → List (List (List Char)) → Prop where
  | nil {expected : ℕ} : Reads maxButtons expected [] []
  | blank {expected : ℕ} {ls : List (List Char)} {rows : List (List (List Char))}
      (rest : Reads maxButtons expected ls rows) : Reads maxButtons expected ([] :: ls) rows
  | row {expected : ℕ} {digits : List Char} {buttons : List (List Char)} {ls : List (List Char)}
      {rows : List (List (List Char))} (numeral : Numeral digits expected)
      (valid : ValidRow maxButtons buttons) (rest : Reads maxButtons (expected + 1) ls rows) :
      Reads maxButtons expected ((digits ++ ':' :: [','].intercalate buttons) :: ls) (buttons :: rows)

theorem Numeral.toNat {digits : List Char} {n : ℕ} (h : Numeral digits n) {c : Char} (hc : c ∈ digits) :
    48 ≤ c.toNat ∧ c.toNat ≤ 57 := by
  simpa [Char.isDigit, UInt32.le_iff_toNat_le] using h.isDigit c hc

theorem parseU64_of_numeral {digits : List Char} {n : ℕ} (h : Numeral digits n) (hn : n < 2 ^ 64) :
    parseU64 digits = some n := by
  have hplus : digits.head? ≠ some '+' := by
    intro hhead
    have hcode := h.toNat (List.mem_of_head? hhead)
    exact absurd hcode (by decide)
  simp only [parseU64, if_neg hplus, h.value]
  exact if_pos ⟨h.nonempty, List.all_eq_true.mpr h.isDigit, hn⟩

theorem rowState_of_valid (decode : List Char → Except String ControllerRow) (index : ℕ)
    {buttons : List (List Char)} (hvalid : ∀ button ∈ buttons, button ≠ [] ∧ button.all isButtonChar) :
    rowState decode index ([','].intercalate buttons) = .ok ⟨buttons, []⟩ := by
  have hchars : ∀ c ∈ [','].intercalate buttons, IsNamesChar c := fun c hc => isNamesChar_of_mem hvalid hc
  have hbrace : (([','].intercalate buttons).dropWhile isWhitespace).head? ≠ some '{' := by
    intro hhead
    have hmem := (List.dropWhile_sublist _).mem (List.mem_of_head? hhead)
    exact absurd (hchars _ hmem).toNat (by decide)
  rw [rowState, if_neg hbrace]
  congr 2
  cases buttons with
  | nil => rfl
  | cons button rest =>
    have hsplit : ([','].intercalate (button :: rest)).splitOn ',' = button :: rest := by
      apply List.splitOn_intercalate _ _ (by simp)
      intro b hb hcomma
      have hcode := toNat_of_isButtonChar (List.all_eq_true.mp (hvalid b hb).2 _ hcomma)
      exact absurd hcode (by decide)
    have hmap : (button :: rest).map (fun b => (trim b).map Char.toLower) = button :: rest := by
      nth_rewrite 2 [← List.map_id (button :: rest)]
      apply List.map_congr_left
      intro b hb
      have hb := List.all_eq_true.mp (hvalid b hb).2
      have htrim : trim b = b := by
        apply trim_of_toNat
        intro c hc
        have hcode := toNat_of_isButtonChar (hb c hc)
        omega
      rw [htrim, List.map_congr_left fun c hc => toLower_of_isButtonChar (hb c hc)]
      simp
    rw [hsplit, hmap, List.filter_eq_self]
    intro b hb
    simpa using (hvalid b hb).1

theorem parseRows_row {decode : List Char → Except String ControllerRow} {maxRows index expected : ℕ}
    {frames : List MovieFrame} {digits : List Char} {buttons : List (List Char)} {maxButtons : ℕ}
    {rest : List (List Char)} (hnumeral : Numeral digits expected) (hvalid : ValidRow maxButtons buttons)
    (hexpected : expected < 2 ^ 64) (hlength : frames.length < maxRows) :
    parseRows decode maxRows index frames ((digits ++ ':' :: [','].intercalate buttons) :: rest) =
      parseRows decode maxRows (index + 1) (frames ++ [⟨expected, buttons, []⟩]) rest := by
  have htrim : trim (digits ++ ':' :: [','].intercalate buttons) =
      digits ++ ':' :: [','].intercalate buttons := by
    apply trim_of_toNat
    intro c hc
    rcases List.mem_append.mp hc with hc | hc
    · have hcode := hnumeral.toNat hc
      omega
    · rcases List.mem_cons.mp hc with rfl | hc
      · decide
      · have hcode := (isNamesChar_of_mem hvalid.valid hc).toNat
        omega
  have hdigits : trim digits = digits := by
    apply trim_of_toNat
    intro c hc
    have hcode := hnumeral.toNat hc
    omega
  have hcolon : ':' ∉ digits := fun hc => absurd (hnumeral.toNat hc) (by decide)
  rw [parseRows, htrim, if_neg (by simp), splitOnce_append hcolon]
  simp only [orError, require, bind, Except.bind, hdigits, parseU64_of_numeral hnumeral hexpected,
    rowState_of_valid decode index hvalid.valid, if_pos hlength]

theorem parseRows_of_reads (decode : List Char → Except String ControllerRow) {maxButtons maxRows expected : ℕ}
    {ls : List (List Char)} {rows : List (List (List Char))} (h : Reads maxButtons expected ls rows)
    {frames : List MovieFrame} (hcount : frames.length + rows.length ≤ maxRows)
    (hexpected : expected + rows.length ≤ 2 ^ 64) (index : ℕ) :
    parseRows decode maxRows index frames ls = .ok (frames ++ rowFrames expected rows) := by
  induction h generalizing frames index with
  | nil => simp [parseRows, rowFrames]
  | blank _ ih =>
    rw [parseRows, if_pos (show trim [] = [] from rfl)]
    exact ih hcount hexpected _
  | row hnumeral hvalid _ ih =>
    simp only [List.length_cons] at hcount hexpected
    rw [parseRows_row hnumeral hvalid (by omega) (by omega), ih (by simp; omega) (by omega)]
    simp [rowFrames]

theorem le_frame_of_mem_rowFrames {expected : ℕ} {rows : List (List (List Char))} {frame : MovieFrame}
    (h : frame ∈ rowFrames expected rows) : expected ≤ frame.frame := by
  induction rows generalizing expected with
  | nil => simp [rowFrames] at h
  | cons buttons rows ih =>
    rcases List.mem_cons.mp h with rfl | hmem
    · exact le_rfl
    · have := ih hmem
      omega

theorem mergeSort_rowFrames (expected : ℕ) (rows : List (List (List Char))) :
    (rowFrames expected rows).mergeSort (fun a b => a.frame ≤ b.frame) = rowFrames expected rows := by
  apply List.mergeSort_of_pairwise
  induction rows generalizing expected with
  | nil => exact .nil
  | cons buttons rows ih =>
    refine List.pairwise_cons.mpr ⟨fun frame hmem => ?_, ih _⟩
    have := le_frame_of_mem_rowFrames hmem
    simp
    omega

@[simp] theorem length_rowFrames (expected : ℕ) (rows : List (List (List Char))) :
    (rowFrames expected rows).length = rows.length := by
  induction rows generalizing expected with
  | nil => rfl
  | cons buttons rows ih => simp [rowFrames, ih]

@[simp] theorem map_buttons_rowFrames (expected : ℕ) (rows : List (List (List Char))) :
    (rowFrames expected rows).map (·.buttons) = rows := by
  induction rows generalizing expected with
  | nil => rfl
  | cons buttons rows ih => simp [rowFrames, ih]

theorem axes_of_mem_rowFrames {expected : ℕ} {rows : List (List (List Char))} {frame : MovieFrame}
    (h : frame ∈ rowFrames expected rows) : frame.axes = [] := by
  induction rows generalizing expected with
  | nil => simp [rowFrames] at h
  | cons buttons rows ih =>
    rcases List.mem_cons.mp h with rfl | hmem
    · rfl
    · exact ih hmem

theorem Reads.validRow {maxButtons expected : ℕ} {ls : List (List Char)} {rows : List (List (List Char))}
    (h : Reads maxButtons expected ls rows) : ∀ buttons ∈ rows, ValidRow maxButtons buttons := by
  induction h with
  | nil => simp
  | blank _ ih => exact ih
  | row _ hvalid _ ih =>
    intro buttons hmem
    rcases List.mem_cons.mp hmem with rfl | hmem
    · exact hvalid
    · exact ih buttons hmem

theorem Reads.notMem_of_lt {maxButtons expected : ℕ} {ls : List (List Char)}
    {rows : List (List (List Char))} (h : Reads maxButtons expected ls rows) {c : Char} (hc : c.toNat < 43) :
    ∀ l ∈ ls, c ∉ l := by
  induction h with
  | nil => simp
  | blank _ ih =>
    intro l hl
    rcases List.mem_cons.mp hl with rfl | hl
    · simp
    · exact ih l hl
  | row hnumeral hvalid _ ih =>
    intro l hl
    rcases List.mem_cons.mp hl with rfl | hl
    · intro hmem
      rcases List.mem_append.mp hmem with hmem | hmem
      · have hcode := hnumeral.toNat hmem
        omega
      · rcases List.mem_cons.mp hmem with rfl | hmem
        · exact absurd hc (by decide)
        · have hcode := (isNamesChar_of_mem hvalid.valid hmem).toNat
          omega
    · exact ih l hl

theorem Reads.lines_unlines {maxButtons expected : ℕ} {ls : List (List Char)}
    {rows : List (List (List Char))} (h : Reads maxButtons expected ls rows) : lines (unlines ls) = ls := by
  have hnewline := h.notMem_of_lt (show '\n'.toNat < 43 by decide)
  have hreturn := h.notMem_of_lt (show '\r'.toNat < 43 by decide)
  have hlast : lastLine (unlines ls) = [] := by
    have := lastLine_unlines_append hnewline (show '\n' ∉ ([] : List Char) by simp)
    rwa [List.append_nil] at this
  rw [lines, terminatedLines_unlines hnewline, hlast, if_pos rfl, List.append_nil]
  nth_rewrite 2 [← List.map_id ls]
  apply List.map_congr_left
  intro l hl
  exact if_neg fun hend => hreturn l hl (List.mem_of_getLast? hend)

theorem parseMovie_of_reads (decode : List Char → Except String ControllerRow) {maxButtons : ℕ}
    {ls : List (List Char)} {rows : List (List (List Char))} (h : Reads maxButtons 0 ls rows)
    (hcount : rows.length < 2 ^ 64) : parseMovie decode (unlines ls) = .ok ⟨rowFrames 0 rows⟩ := by
  have hrows : parseRows decode (2 ^ 64 - 1) 0 [] ls = .ok ([] ++ rowFrames 0 rows) :=
    parseRows_of_reads decode h (by simp only [List.length_nil]; omega) (by omega) 0
  rw [List.nil_append] at hrows
  rw [parseMovie, parseMovieBounded, h.lines_unlines, hrows]
  exact congrArg (fun frames => Except.ok (Movie.mk frames)) (mergeSort_rowFrames 0 rows)

theorem canonicalRecordingMovie_of_reads (decode : List Char → Except String ControllerRow) {maxButtons : ℕ}
    {ls : List (List Char)} {rows : List (List (List Char))} (h : Reads maxButtons 0 ls rows) {frames : UInt64}
    (hframes : frames ≠ 0) (hcount : rows.length = frames.toNat) :
    canonicalRecordingMovie decode (unlines ls) frames maxButtons =
      .ok ⟨⟨rowFrames 0 rows⟩, render 0 rows⟩ := by
  have hparse := parseMovie_of_reads decode h (hcount ▸ frames.toNat_lt)
  simp only [canonicalRecordingMovie, bind_eq_ok, require_eq_ok, exists_const]
  refine ⟨_, hparse, hframes, by simpa using hcount, fun frame hmem => axes_of_mem_rowFrames hmem, _,
    canonicalRows_rowFrames h.validRow 0, rfl⟩

/-! ## The canonical lines -/

def rowLines : ℕ → List (List (List Char)) → List (List Char)
  | _, [] => []
  | expected, buttons :: rows =>
    (Nat.toDigits 10 expected ++ ':' :: [','].intercalate buttons) :: rowLines (expected + 1) rows

theorem unlines_rowLines (expected : ℕ) (rows : List (List (List Char))) :
    unlines (rowLines expected rows) = render expected rows := by
  induction rows generalizing expected with
  | nil => rfl
  | cons buttons rows ih => simp [rowLines, render, renderRow, ih]

theorem reads_rowLines {maxButtons : ℕ} {rows : List (List (List Char))}
    (hrows : ∀ buttons ∈ rows, ValidRow maxButtons buttons) (expected : ℕ) :
    Reads maxButtons expected (rowLines expected rows) rows := by
  induction rows generalizing expected with
  | nil => exact .nil
  | cons buttons rows ih =>
    exact .row (.toDigits expected) (hrows buttons (by simp)) (ih (fun b hb => hrows b (by simp [hb])) _)

def NoBlankLine (text : List Char) : Prop := [] ∉ terminatedLines text

def zeroPadded (line : List Char) : Bool := line.head? == some '0' && (line)[1]?.any Char.isDigit

def NoZeroPadding (text : List Char) : Prop := ∀ line ∈ terminatedLines text, zeroPadded line = false

instance (text : List Char) : Decidable (NoBlankLine text) := inferInstanceAs (Decidable (_ ∉ _))

instance (text : List Char) : Decidable (NoZeroPadding text) := inferInstanceAs (Decidable (∀ _ ∈ _, _))

theorem Numeral.zeroPadded_eq_false_iff {digits names : List Char} {n : ℕ} (h : Numeral digits n) :
    zeroPadded (digits ++ ':' :: names) = false ↔ (digits.head? = some '0' → digits.length = 1) := by
  cases digits with
  | nil => exact absurd rfl h.nonempty
  | cons c digits =>
    cases digits with
    | nil =>
      have hcolon : ':'.isDigit = false := by decide
      simp [zeroPadded, hcolon]
    | cons d digits =>
      have hd := h.isDigit d (by simp)
      simp [zeroPadded, hd]

theorem Numeral.eq_toDigits_iff {digits names : List Char} {n : ℕ} (h : Numeral digits n) :
    digits = Nat.toDigits 10 n ↔ zeroPadded (digits ++ ':' :: names) = false := by
  rw [h.zeroPadded_eq_false_iff]
  constructor
  · rintro rfl
    exact length_toDigits_of_head_zero
  · intro hpad
    have heq := toDigits_ofDigitChars h.nonempty h.isDigit hpad
    rw [h.value] at heq
    exact heq.symm

theorem nil_notMem_rowLines (expected : ℕ) (rows : List (List (List Char))) :
    [] ∉ rowLines expected rows := by
  induction rows generalizing expected with
  | nil => simp [rowLines]
  | cons buttons rows ih => simp [rowLines, ih]

theorem Reads.eq_rowLines_iff {maxButtons expected : ℕ} {ls : List (List Char)}
    {rows : List (List (List Char))} (h : Reads maxButtons expected ls rows) :
    ls = rowLines expected rows ↔ [] ∉ ls ∧ ∀ l ∈ ls, zeroPadded l = false := by
  induction h with
  | nil => simp [rowLines]
  | @blank expected ls rows _ _ =>
    constructor
    · intro heq
      exact absurd (heq ▸ List.mem_cons_self) (nil_notMem_rowLines expected rows)
    · rintro ⟨hblank, -⟩
      exact absurd List.mem_cons_self hblank
  | @row expected digits buttons ls rows hnumeral _ _ ih =>
    have hfirst : digits = Nat.toDigits 10 expected ↔
        zeroPadded (digits ++ ':' :: [','].intercalate buttons) = false := hnumeral.eq_toDigits_iff
    simp only [rowLines, List.cons.injEq, List.append_left_inj, ih, hfirst, List.mem_cons, forall_eq_or_imp,
      not_or]
    constructor
    · rintro ⟨hpad, hblank, hrest⟩
      exact ⟨⟨by simp, hblank⟩, hpad, hrest⟩
    · rintro ⟨⟨-, hblank⟩, hpad, hrest⟩
      exact ⟨hpad, hblank, hrest⟩

theorem Reads.eq_render_iff {maxButtons : ℕ} {ls : List (List Char)} {rows : List (List (List Char))}
    (h : Reads maxButtons 0 ls rows) :
    render 0 rows = unlines ls ↔ NoBlankLine (unlines ls) ∧ NoZeroPadding (unlines ls) := by
  have hlines := terminatedLines_unlines (h.notMem_of_lt (show '\n'.toNat < 43 by decide))
  have hcanonical := terminatedLines_unlines
    ((reads_rowLines h.validRow 0).notMem_of_lt (show '\n'.toNat < 43 by decide))
  rw [NoBlankLine, NoZeroPadding, hlines, ← h.eq_rowLines_iff, ← unlines_rowLines]
  constructor
  · intro heq
    rw [← hlines, ← heq, hcanonical]
  · intro heq
    rw [← heq]

end Emucap.InputMovie
