import Emucap.Lib.QuotedFields
import Emucap.Media.Graph

/-!
# Fields of a descriptor line

`quoted_fields` and the `tokenize_directive` of cue sheets go over a line once and accept just the lines of the
grammar `FieldsOf` that have few enough fields. The errors play no part in what is accepted.
-/

namespace Emucap.Media

open Emucap.Lib

def LineFields (line : List Char) (fields : List String) : Prop :=
  ∃ values, FieldsOf isWhitespace '"' line values ∧ fields = values.map String.ofList

theorem isWhitespace_quote : isWhitespace '"' = false := by decide

/-- What is still to be read after `read`: the rest of the quotes, of the word, or of the line. -/
def Follows (read : Fields) (rest : List Char) (values : List (List Char)) : Prop :=
  if read.quoted then RestOfQuote isWhitespace '"' read.current rest values
  else if read.started then RestOfWord isWhitespace '"' read.current rest values
  else FieldsOf isWhitespace '"' rest values

/-- A field in quotes has begun, and of one that has not nothing is read. -/
structure Fields.Steady (maxFields : ℕ) (read : Fields) : Prop where
  quoted : read.quoted = true → read.started = true
  unstarted : read.started = false → read.current = []
  count : read.fields.length ≤ maxFields

def Gives (maxFields : ℕ) (read : Fields) (rest : List Char) (fields : List String) : Prop :=
  ∃ values, Follows read rest values ∧ fields = read.fields ++ values.map String.ofList ∧ fields.length ≤ maxFields

section
variable {errors : FieldErrors} {maxFields : ℕ} {read read' : Fields} {fields : List String} {rest : List Char}

theorem follows_quoted {values : List (List Char)} (h : read.quoted = true) :
    Follows read rest values ↔ RestOfQuote isWhitespace '"' read.current rest values := by
  rw [Follows, if_pos h]

theorem follows_started {values : List (List Char)} (hquoted : read.quoted = false) (hstarted : read.started = true) :
    Follows read rest values ↔ RestOfWord isWhitespace '"' read.current rest values := by
  rw [Follows, if_neg (by simp [hquoted]), if_pos hstarted]

theorem follows_unstarted {values : List (List Char)} (hquoted : read.quoted = false)
    (hstarted : read.started = false) : Follows read rest values ↔ FieldsOf isWhitespace '"' rest values := by
  rw [Follows, if_neg (by simp [hquoted]), if_neg (by simp [hstarted])]

def Fields.finished (read : Fields) : Fields :=
  { read with fields := read.fields ++ [String.ofList read.current], current := [], started := false }

theorem finishField_started (hstarted : read.started = true) : finishField errors maxFields read = .ok read' ↔
    read.fields.length < maxFields ∧ read' = read.finished := by
  rw [finishField, if_pos hstarted, require_bind_eq_ok]
  simp [pure, Except.pure, eq_comm, Fields.finished]

theorem finishField_unstarted (hstarted : read.started = false) : finishField errors maxFields read = .ok read := by
  rw [finishField, if_neg (by simp [hstarted])]
  rfl

theorem finish_eq_ok (hsteady : read.Steady maxFields) :
    (do
      require (read.quoted = false) errors.unterminatedQuote
      return (← finishField errors maxFields read).fields) = .ok fields ↔ Gives maxFields read [] fields := by
  rw [require_bind_eq_ok, bind_eq_ok, Gives]
  by_cases hquoted : read.quoted = true
  · simp [hquoted, follows_quoted hquoted, not_restOfQuote_nil]
  have hunquoted : read.quoted = false := by simpa using hquoted
  by_cases hstarted : read.started = true
  · simp only [finishField_started hstarted, follows_started hunquoted hstarted, restOfWord_nil, hunquoted, true_and]
    constructor
    · rintro ⟨_, ⟨hcount, rfl⟩, hfields⟩
      obtain rfl := Except.ok.inj hfields
      exact ⟨_, rfl, rfl, by simpa [Fields.finished, Nat.succ_le_iff] using hcount⟩
    · rintro ⟨_, rfl, rfl, hcount⟩
      exact ⟨_, ⟨by simpa [Nat.succ_le_iff] using hcount, rfl⟩, rfl⟩
  · have hunstarted : read.started = false := by simpa using hstarted
    simp only [finishField_unstarted hunstarted, follows_unstarted hunquoted hunstarted, fieldsOf_nil_iff, hunquoted,
      true_and]
    constructor
    · rintro ⟨_, hread, hfields⟩
      obtain rfl := Except.ok.inj hread
      obtain rfl := Except.ok.inj hfields
      exact ⟨_, rfl, by simp, hsteady.count⟩
    · rintro ⟨_, rfl, rfl, -⟩
      exact ⟨_, rfl, by simp [pure, Except.pure]⟩

/-- One character of the line. What it may be is decided by where it stands: in quotes, in a word, or before a
field. -/
theorem readCharacter_step {c : Char} (hsteady : read.Steady maxFields) :
    (∀ read', readCharacter errors maxFields read c = .ok read' → read'.Steady maxFields) ∧
      (Gives maxFields read (c :: rest) fields ↔
        ∃ read', readCharacter errors maxFields read c = .ok read' ∧ Gives maxFields read' rest fields) := by
  unfold readCharacter
  by_cases hquote : c = '"'
  · subst hquote
    rw [if_pos rfl]
    by_cases hquoted : read.quoted = true
    · rw [if_pos hquoted]
      refine ⟨?_, ?_⟩
      · intro read' h
        obtain rfl := Except.ok.inj h
        exact ⟨nofun, nofun, hsteady.count⟩
      · simp [Gives, follows_quoted hquoted, restOfQuote_quote, follows_started]
    have hunquoted : read.quoted = false := by simpa using hquoted
    rw [if_neg hquoted]
    by_cases hstarted : read.started = true
    · rw [if_pos hstarted]
      refine ⟨nofun, ?_⟩
      simp [Gives, follows_started hunquoted hstarted, not_restOfWord_quote isWhitespace_quote]
    · have hunstarted : read.started = false := by simpa using hstarted
      rw [if_neg hstarted]
      refine ⟨?_, ?_⟩
      · intro read' h
        obtain rfl := Except.ok.inj h
        exact ⟨fun _ => rfl, nofun, hsteady.count⟩
      · simp [Gives, follows_unstarted hunquoted hunstarted, fieldsOf_quote isWhitespace_quote, follows_quoted,
          hsteady.unstarted hunstarted]
  rw [if_neg hquote]
  by_cases hspace : isWhitespace c = true ∧ read.quoted = false
  · obtain ⟨hspace, hunquoted⟩ := hspace
    rw [if_pos (by simp [hspace, hunquoted])]
    by_cases hstarted : read.started = true
    · simp only [finishField_started hstarted]
      refine ⟨?_, ?_⟩
      · rintro _ ⟨hcount, rfl⟩
        exact ⟨by simp [Fields.finished, hunquoted], fun _ => rfl, by simpa [Fields.finished, Nat.succ_le_iff] using hcount⟩
      · simp only [Gives, follows_started hunquoted hstarted, restOfWord_space hspace isWhitespace_quote]
        constructor
        · rintro ⟨_, ⟨values, rfl, hrest⟩, rfl, hcount⟩
          refine ⟨_, ⟨?_, rfl⟩, values, ?_, by simp [Fields.finished], hcount⟩
          · simp only [List.map_cons, List.length_append, List.length_cons] at hcount
            omega
          · rwa [follows_unstarted (by simpa [Fields.finished] using hunquoted) rfl]
        · rintro ⟨_, ⟨-, rfl⟩, values, hrest, rfl, hcount⟩
          rw [follows_unstarted (by simpa [Fields.finished] using hunquoted) rfl] at hrest
          exact ⟨_, ⟨values, rfl, hrest⟩, by simp [Fields.finished], hcount⟩
    · have hunstarted : read.started = false := by simpa using hstarted
      rw [finishField_unstarted hunstarted]
      refine ⟨?_, ?_⟩
      · intro read' h
        obtain rfl := Except.ok.inj h
        exact hsteady
      · simp [Gives, follows_unstarted hunquoted hunstarted, fieldsOf_space hspace isWhitespace_quote]
  · rw [if_neg (by simpa using hspace)]
    refine ⟨?_, ?_⟩
    · intro read' h
      obtain rfl := Except.ok.inj h
      exact ⟨fun _ => rfl, nofun, hsteady.count⟩
    · by_cases hquoted : read.quoted = true
      · simp [Gives, follows_quoted, hquoted, restOfQuote_other hquote]
      have hunquoted : read.quoted = false := by simpa using hquoted
      have hordinary : Ordinary isWhitespace '"' c := ⟨hquote, by simpa [hunquoted] using hspace⟩
      by_cases hstarted : read.started = true
      · simp [Gives, follows_started, hunquoted, hstarted, restOfWord_ordinary hordinary]
      · have hunstarted : read.started = false := by simpa using hstarted
        simp [Gives, follows_unstarted hunquoted hunstarted, follows_started, hunquoted, fieldsOf_ordinary hordinary,
          hsteady.unstarted hunstarted]

theorem readCharacters_eq_ok (hsteady : read.Steady maxFields) :
    (do
      let read ← rest.foldlM (readCharacter errors maxFields) read
      require (read.quoted = false) errors.unterminatedQuote
      return (← finishField errors maxFields read).fields) = .ok fields ↔ Gives maxFields read rest fields := by
  induction rest generalizing read with
  | nil => exact finish_eq_ok hsteady
  | cons c rest ih =>
    obtain ⟨hnext, hgives⟩ := @readCharacter_step errors maxFields read fields rest c hsteady
    rw [hgives, List.foldlM_cons, bind_assoc, bind_eq_ok]
    constructor
    · rintro ⟨read', hread, hrest⟩
      exact ⟨read', hread, (ih (hnext read' hread)).mp hrest⟩
    · rintro ⟨read', hread, hrest⟩
      exact ⟨read', hread, (ih (hnext read' hread)).mpr hrest⟩

end

theorem splitFields_eq_ok {errors : FieldErrors} {maxFields : ℕ} {line : List Char} {fields : List String} :
    splitFields errors maxFields line = .ok fields ↔ LineFields line fields ∧ fields.length ≤ maxFields := by
  have hsteady : Fields.Steady maxFields ⟨[], [], false, false⟩ := ⟨nofun, fun _ => rfl, Nat.zero_le _⟩
  rw [splitFields, readCharacters_eq_ok hsteady, Gives, LineFields]
  simp only [follows_unstarted, List.nil_append]
  constructor
  · rintro ⟨values, hline, rfl, hcount⟩
    exact ⟨⟨values, hline, rfl⟩, hcount⟩
  · rintro ⟨⟨values, hline, rfl⟩, hcount⟩
    exact ⟨values, hline, rfl, hcount⟩

end Emucap.Media
