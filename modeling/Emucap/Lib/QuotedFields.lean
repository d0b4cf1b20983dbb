import Mathlib.Data.List.Basic

/-!
# Fields with quotes

The fields of a line have spaces between them; one that begins with a quote goes to the next quote and on to the next
space. `FieldsOf` is the grammar; the lemmas say what a reader makes of the next character.
-/

namespace Emucap.Lib

variable {α : Type} (space : α → Bool) (quote : α)

def Ordinary (a : α) : Prop := a ≠ quote ∧ space a = false

def AtBreak (rest : List α) : Prop := ∀ a ∈ rest.head?, space a = true

inductive FieldsOf : List α → List (List α) → Prop where
  | nil : FieldsOf [] []
  | space {a rest fields} : space a = true → FieldsOf rest fields → FieldsOf (a :: rest) fields
  | word {word rest fields} : word ≠ [] → (∀ a ∈ word, Ordinary space quote a) → AtBreak space rest →
      FieldsOf rest fields → FieldsOf (word ++ rest) (word :: fields)
  | quoted {inner word rest fields} : quote ∉ inner → (∀ a ∈ word, Ordinary space quote a) → AtBreak space rest →
      FieldsOf rest fields → FieldsOf (quote :: (inner ++ quote :: (word ++ rest))) ((inner ++ word) :: fields)

/-- What may follow inside a word, of which `current` has been read. -/
def RestOfWord (current rest : List α) (fields : List (List α)) : Prop :=
  ∃ word after values, rest = word ++ after ∧ (∀ a ∈ word, Ordinary space quote a) ∧ AtBreak space after ∧
    FieldsOf space quote after values ∧ fields = (current ++ word) :: values

def RestOfQuote (current rest : List α) (fields : List (List α)) : Prop :=
  ∃ inner after, rest = inner ++ quote :: after ∧ quote ∉ inner ∧
    RestOfWord space quote (current ++ inner) after fields

variable {space quote} {a : α} {current rest : List α} {fields : List (List α)}

theorem fieldsOf_nil_iff : FieldsOf space quote [] fields ↔ fields = [] := by
  constructor
  · intro h
    generalize hline : ([] : List α) = line at h
    cases h with
    | nil => rfl
    | space _ _ => cases hline
    | word hword _ _ _ => exact absurd (List.append_eq_nil_iff.mp hline.symm).1 hword
    | quoted _ _ _ _ => cases hline
  · rintro rfl
    exact .nil

theorem fieldsOf_space (hspace : space a = true) (hquote : space quote = false) :
    FieldsOf space quote (a :: rest) fields ↔ FieldsOf space quote rest fields := by
  refine ⟨fun h => ?_, .space hspace⟩
  generalize hline : a :: rest = line at h
  cases h with
  | nil => cases hline
  | space _ hrest =>
    obtain ⟨-, rfl⟩ := List.cons.inj hline
    exact hrest
  | @word word _ _ hne hword _ _ =>
    obtain ⟨b, word, rfl⟩ := List.exists_cons_of_ne_nil hne
    obtain ⟨rfl, -⟩ := List.cons.inj hline
    have hordinary := (hword a List.mem_cons_self).2
    rw [hspace] at hordinary
    cases hordinary
  | quoted _ _ _ _ =>
    obtain ⟨rfl, -⟩ := List.cons.inj hline
    rw [hspace] at hquote
    cases hquote

theorem fieldsOf_quote (hquote : space quote = false) :
    FieldsOf space quote (quote :: rest) fields ↔ RestOfQuote space quote [] rest fields := by
  constructor
  · intro h
    generalize hline : quote :: rest = line at h
    cases h with
    | nil => cases hline
    | space hspace _ =>
      obtain ⟨rfl, -⟩ := List.cons.inj hline
      rw [hspace] at hquote
      cases hquote
    | @word word _ _ hne hword _ _ =>
      obtain ⟨b, word, rfl⟩ := List.exists_cons_of_ne_nil hne
      obtain ⟨rfl, -⟩ := List.cons.inj hline
      exact absurd rfl (hword quote List.mem_cons_self).1
    | @quoted inner word after values hinner hword hbreak hrest =>
      obtain ⟨-, rfl⟩ := List.cons.inj hline
      exact ⟨inner, _, rfl, hinner, word, after, values, rfl, hword, hbreak, hrest, rfl⟩
  · rintro ⟨inner, _, rfl, hinner, word, after, values, rfl, hword, hbreak, hrest, rfl⟩
    exact .quoted hinner hword hbreak hrest

theorem fieldsOf_ordinary (hordinary : Ordinary space quote a) :
    FieldsOf space quote (a :: rest) fields ↔ RestOfWord space quote [a] rest fields := by
  constructor
  · intro h
    generalize hline : a :: rest = line at h
    cases h with
    | nil => cases hline
    | space hspace _ =>
      obtain ⟨rfl, -⟩ := List.cons.inj hline
      rw [hordinary.2] at hspace
      cases hspace
    | @word word after values hne hword hbreak hrest =>
      obtain ⟨b, word, rfl⟩ := List.exists_cons_of_ne_nil hne
      obtain ⟨rfl, rfl⟩ := List.cons.inj hline
      rw [List.forall_mem_cons] at hword
      exact ⟨word, after, values, rfl, hword.2, hbreak, hrest, rfl⟩
    | quoted _ _ _ _ =>
      obtain ⟨rfl, -⟩ := List.cons.inj hline
      exact absurd rfl hordinary.1
  · rintro ⟨word, after, values, rfl, hword, hbreak, hrest, rfl⟩
    exact .word (List.cons_ne_nil a word) (List.forall_mem_cons.mpr ⟨hordinary, hword⟩) hbreak hrest

theorem restOfWord_nil : RestOfWord space quote current [] fields ↔ fields = [current] := by
  constructor
  · rintro ⟨word, after, values, hline, -, -, hrest, rfl⟩
    obtain ⟨rfl, rfl⟩ := List.append_eq_nil_iff.mp hline.symm
    rw [(fieldsOf_nil_iff).mp hrest, List.append_nil]
  · rintro rfl
    exact ⟨[], [], [], rfl, by simp, by simp [AtBreak], .nil, by simp⟩

theorem restOfWord_space (hspace : space a = true) (hquote : space quote = false) :
    RestOfWord space quote current (a :: rest) fields ↔
      ∃ values, fields = current :: values ∧ FieldsOf space quote rest values := by
  constructor
  · rintro ⟨word, after, values, hline, hword, -, hrest, rfl⟩
    cases word with
    | nil =>
      rw [List.nil_append] at hline
      rw [← hline, fieldsOf_space hspace hquote] at hrest
      exact ⟨values, by simp, hrest⟩
    | cons b word =>
      obtain ⟨rfl, -⟩ := List.cons.inj hline
      have hordinary := (hword a List.mem_cons_self).2
      rw [hspace] at hordinary
      cases hordinary
  · rintro ⟨values, rfl, hrest⟩
    exact ⟨[], a :: rest, values, rfl, by simp, by simpa [AtBreak] using hspace, .space hspace hrest, by simp⟩

theorem not_restOfWord_quote (hquote : space quote = false) :
    ¬ RestOfWord space quote current (quote :: rest) fields := by
  rintro ⟨word, after, values, hline, hword, hbreak, -, -⟩
  cases word with
  | nil =>
    rw [List.nil_append] at hline
    have hspace := hbreak quote (by simp [← hline])
    rw [hquote] at hspace
    cases hspace
  | cons b word =>
    obtain ⟨rfl, -⟩ := List.cons.inj hline
    exact (hword quote List.mem_cons_self).1 rfl

theorem restOfWord_ordinary (hordinary : Ordinary space quote a) :
    RestOfWord space quote current (a :: rest) fields ↔ RestOfWord space quote (current ++ [a]) rest fields := by
  constructor
  · rintro ⟨word, after, values, hline, hword, hbreak, hrest, rfl⟩
    cases word with
    | nil =>
      rw [List.nil_append] at hline
      have hspace := hbreak a (by simp [← hline])
      rw [hordinary.2] at hspace
      cases hspace
    | cons b word =>
      obtain ⟨rfl, rfl⟩ := List.cons.inj hline
      rw [List.forall_mem_cons] at hword
      exact ⟨word, after, values, rfl, hword.2, hbreak, hrest, by simp⟩
  · rintro ⟨word, after, values, rfl, hword, hbreak, hrest, rfl⟩
    exact ⟨a :: word, after, values, rfl, List.forall_mem_cons.mpr ⟨hordinary, hword⟩, hbreak, hrest, by simp⟩

theorem not_restOfQuote_nil : ¬ RestOfQuote space quote current [] fields := by
  rintro ⟨inner, after, hline, -⟩
  cases inner with
  | nil => cases hline
  | cons b inner => cases hline

theorem restOfQuote_quote :
    RestOfQuote space quote current (quote :: rest) fields ↔ RestOfWord space quote current rest fields := by
  constructor
  · rintro ⟨inner, after, hline, hinner, hrest⟩
    cases inner with
    | nil =>
      obtain ⟨-, rfl⟩ := List.cons.inj hline
      rwa [List.append_nil] at hrest
    | cons b inner =>
      obtain ⟨rfl, -⟩ := List.cons.inj hline
      exact absurd List.mem_cons_self hinner
  · intro h
    exact ⟨[], rest, rfl, by simp, by rwa [List.append_nil]⟩

theorem restOfQuote_other (ha : a ≠ quote) :
    RestOfQuote space quote current (a :: rest) fields ↔ RestOfQuote space quote (current ++ [a]) rest fields := by
  constructor
  · rintro ⟨inner, after, hline, hinner, hrest⟩
    cases inner with
    | nil => exact absurd (List.cons.inj hline).1 ha
    | cons b inner =>
      obtain ⟨rfl, rfl⟩ := List.cons.inj hline
      rw [List.mem_cons, not_or] at hinner
      exact ⟨inner, after, rfl, hinner.2, by simpa using hrest⟩
  · rintro ⟨inner, after, rfl, hinner, hrest⟩
    exact ⟨a :: inner, after, rfl, by simp [ha.symm, hinner], by simpa using hrest⟩

end Emucap.Lib
