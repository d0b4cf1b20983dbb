import Emucap.Lib.Text
import Mathlib.Data.List.Basic

/-!
# Text on the XML channel

`xml_escape`, `xml_unescape` and `tag_text` (`openmsx_bridge.rs`). Each replacement rewrites an escaped text piece by
piece. The text of a tag ends at the last closing tag; where that comes first, the cut fails.
-/

namespace Emucap.OpenmsxBridge.XmlText

open Emucap.Lib

/-! ## Replacements -/

/-- `str::replace` of a character. -/
def replaceChar (c : Char) (new : List Char) (s : List Char) : List Char :=
  s.flatMap fun d => if d = c then new else [d]

/-- `str::replace` of a text, after the given number of characters that the last occurrence still covers. -/
def replaceAfter (pat new : List Char) : ℕ → List Char → List Char
  | _, [] => []
  | covered + 1, _ :: s => replaceAfter pat new covered s
  | 0, c :: s =>
    if pat <+: c :: s then new ++ replaceAfter pat new (pat.length - 1) s else c :: replaceAfter pat new 0 s

def replace (pat new : String) (s : List Char) : List Char := replaceAfter pat.toList new.toList 0 s

def xmlEscape (s : List Char) : List Char :=
  replaceChar '>' "&gt;".toList (replaceChar '<' "&lt;".toList (replaceChar '&' "&amp;".toList s))

def xmlUnescape (s : List Char) : List Char :=
  replace "&amp;" "&" (replace "&apos;" "'" (replace "&quot;" "\"" (replace "&gt;" ">" (replace "&lt;" "<"
    (replace "&#x0a;" "\n" s)))))

section
variable {pat new piece rest : List Char}

theorem replaceAfter_plain {c : Char} (h : c ∉ piece) :
    replaceAfter (c :: pat) new 0 (piece ++ rest) = piece ++ replaceAfter (c :: pat) new 0 rest := by
  induction piece with
  | nil => rfl
  | cons d piece ih =>
    simp only [List.mem_cons, not_or] at h
    have hother : ¬ c :: pat <+: d :: (piece ++ rest) := fun hfound => h.1 (List.cons_prefix_cons.mp hfound).1
    rw [List.cons_append, replaceAfter, if_neg hother, ih h.2, List.cons_append]

theorem replaceAfter_flatMap {f g : Char → List Char} (s : List Char)
    (h : ∀ c rest, replaceAfter pat new 0 (f c ++ rest) = g c ++ replaceAfter pat new 0 rest) :
    replaceAfter pat new 0 (s.flatMap f) = s.flatMap g := by
  induction s with
  | nil => rfl
  | cons c s ih => rw [List.flatMap_cons, h, ih, List.flatMap_cons]

end

/-! ## Escaped text -/

/-- The piece of a character, where `&`, `<` and `>` have the given ones. -/
def image (amp lt gt : String) (c : Char) : List Char :=
  if c = '&' then amp.toList else if c = '<' then lt.toList else if c = '>' then gt.toList else [c]

theorem xmlEscape_eq (s : List Char) : xmlEscape s = s.flatMap (image "&amp;" "&lt;" "&gt;") := by
  simp only [xmlEscape, replaceChar, List.flatMap_assoc]
  refine List.flatMap_congr fun c _ => ?_
  by_cases hamp : c = '&'
  · subst hamp; rfl
  by_cases hlt : c = '<'
  · subst hlt; rfl
  by_cases hgt : c = '>'
  · subst hgt; rfl
  simp [image, hamp, hlt, hgt]

theorem replace_image {pat new amp lt gt amp' lt' gt' : String} {name : List Char} (hpat : pat.toList = '&' :: name)
    (hamp : ∀ rest, replace pat new (amp.toList ++ rest) = amp'.toList ++ replace pat new rest)
    (hlt : ∀ rest, replace pat new (lt.toList ++ rest) = lt'.toList ++ replace pat new rest)
    (hgt : ∀ rest, replace pat new (gt.toList ++ rest) = gt'.toList ++ replace pat new rest) (s : List Char) :
    replace pat new (s.flatMap (image amp lt gt)) = s.flatMap (image amp' lt' gt') := by
  refine replaceAfter_flatMap s fun c rest => ?_
  unfold image
  split_ifs with hcamp hclt hcgt
  · exact hamp rest
  · exact hlt rest
  · exact hgt rest
  · rw [hpat]
    exact replaceAfter_plain (by simpa using Ne.symm hcamp)

theorem xmlUnescape_xmlEscape (s : List Char) : xmlUnescape (xmlEscape s) = s := by
  have hself : s.flatMap (image "&" "<" ">") = s := by
    have himage : image "&" "<" ">" = fun c => [c] := by
      funext c
      unfold image
      split_ifs with hamp hlt hgt <;> simp [*]
    rw [himage, List.flatMap_singleton']
  have hline : replace "&#x0a;" "\n" (s.flatMap (image "&amp;" "&lt;" "&gt;")) =
      s.flatMap (image "&amp;" "&lt;" "&gt;") :=
    replace_image rfl (fun _ => rfl) (fun _ => rfl) (fun _ => rfl) s
  have hlt : replace "&lt;" "<" (s.flatMap (image "&amp;" "&lt;" "&gt;")) = s.flatMap (image "&amp;" "<" "&gt;") :=
    replace_image rfl (fun _ => rfl) (fun _ => rfl) (fun _ => rfl) s
  have hgt : replace "&gt;" ">" (s.flatMap (image "&amp;" "<" "&gt;")) = s.flatMap (image "&amp;" "<" ">") :=
    replace_image rfl (fun _ => rfl) (fun _ => rfl) (fun _ => rfl) s
  have hquot : replace "&quot;" "\"" (s.flatMap (image "&amp;" "<" ">")) = s.flatMap (image "&amp;" "<" ">") :=
    replace_image rfl (fun _ => rfl) (fun _ => rfl) (fun _ => rfl) s
  have hapos : replace "&apos;" "'" (s.flatMap (image "&amp;" "<" ">")) = s.flatMap (image "&amp;" "<" ">") :=
    replace_image rfl (fun _ => rfl) (fun _ => rfl) (fun _ => rfl) s
  have hamp : replace "&amp;" "&" (s.flatMap (image "&amp;" "<" ">")) = s.flatMap (image "&" "<" ">") :=
    replace_image rfl (fun _ => rfl) (fun _ => rfl) (fun _ => rfl) s
  rw [xmlEscape_eq, xmlUnescape, hline, hlt, hgt, hquot, hapos, hamp, hself]

theorem xmlEscape_plain (s : List Char) : '<' ∉ xmlEscape s ∧ '>' ∉ xmlEscape s := by
  have himage : ∀ c, '<' ∉ image "&amp;" "&lt;" "&gt;" c ∧ '>' ∉ image "&amp;" "&lt;" "&gt;" c := by
    intro c
    unfold image
    split_ifs with hamp hlt hgt
    · decide
    · decide
    · decide
    · exact ⟨by simpa using Ne.symm hlt, by simpa using Ne.symm hgt⟩
  simp only [xmlEscape_eq, List.mem_flatMap, not_exists, not_and]
  exact ⟨fun c _ => (himage c).1, fun c _ => (himage c).2⟩

/-! ## The text of a tag -/

/-- `str::find` of a character. -/
def find (c : Char) (s : List Char) : Option ℕ := if c ∈ s then some (s.idxOf c) else none

/-- `str::rfind` of a text. -/
def rfind (pat : List Char) : List Char → Option ℕ
  | [] => if pat <+: [] then some 0 else none
  | c :: s =>
    match rfind pat s with
    | some e => some (e + 1)
    | none => if pat <+: c :: s then some 0 else none

def closingTag (tag : List Char) : List Char := "</".toList ++ tag ++ ">".toList

/-- `tag_text`, and none where it panics: the slice of the source needs its ends in order. Positions count
characters. -/
def tagText (line tag : List Char) : Option (Option (List Char)) :=
  match find '>' line, rfind (closingTag tag) line with
  | some close, some stop =>
    if close + 1 ≤ stop then some (some (xmlUnescape (trim ((line.take stop).drop (close + 1))))) else none
  | _, _ => some none

theorem rfind_eq_none {pat s : List Char} (h : rfind pat s = none) : ¬ pat <:+: s := by
  induction s with
  | nil =>
    have hpat : ¬ pat <+: [] := by simpa [rfind] using h
    simpa using hpat
  | cons c s ih =>
    rw [rfind] at h
    cases hrest : rfind pat s with
    | some e => simp [hrest] at h
    | none =>
      have hhere : ¬ pat <+: c :: s := by simpa [hrest] using h
      exact fun hfound => (List.infix_cons_iff.mp hfound).elim hhere (ih hrest)

theorem rfind_eq_some {pat s : List Char} {stop : ℕ} (h : rfind pat s = some stop) :
    pat <+: s.drop stop ∧ ∀ before after, s = before ++ pat ++ after → before.length ≤ stop := by
  induction s generalizing stop with
  | nil =>
    obtain ⟨hpat, rfl⟩ : pat <+: [] ∧ 0 = stop := by simpa [rfind] using h
    refine ⟨hpat, fun before after hs => ?_⟩
    have hlength := congrArg List.length hs
    simp only [List.length_nil, List.length_append] at hlength
    omega
  | cons c s ih =>
    rw [rfind] at h
    cases hrest : rfind pat s with
    | some e =>
      obtain rfl : e + 1 = stop := by simpa [hrest] using h
      obtain ⟨hhere, hlast⟩ := ih hrest
      refine ⟨hhere, fun before after hs => ?_⟩
      cases before with
      | nil => simp
      | cons d before => exact Nat.succ_le_succ (hlast before after (List.cons.inj hs).2)
    | none =>
      obtain ⟨hhere, rfl⟩ : pat <+: c :: s ∧ 0 = stop := by simpa [hrest] using h
      refine ⟨hhere, fun before after hs => ?_⟩
      cases before with
      | nil => simp
      | cons d before => exact absurd ⟨before, after, (List.cons.inj hs).2.symm⟩ (rfind_eq_none hrest)

/-- The line has no closing tag, or it has one with a `>` before it. -/
def Opened (line tag : List Char) : Prop :=
  ¬ closingTag tag <:+: line ∨ ∃ before after, line = before ++ closingTag tag ++ after ∧ '>' ∈ before

theorem tagText_isSome (line tag : List Char) : (tagText line tag).isSome ↔ Opened line tag := by
  have hclose : '>' ∈ closingTag tag := by simp [closingTag]
  cases hstop : rfind (closingTag tag) line with
  | none =>
    have hopened : Opened line tag := .inl (rfind_eq_none hstop)
    cases hfind : find '>' line <;> simp [tagText, hstop, hfind, hopened]
  | some stop =>
    obtain ⟨⟨after, hafter⟩, hlast⟩ := rfind_eq_some hstop
    have hline : line = line.take stop ++ closingTag tag ++ after := by
      rw [List.append_assoc, hafter, List.take_append_drop]
    have hmem : '>' ∈ line := by
      rw [hline]
      simp [hclose]
    have hsome : (tagText line tag).isSome ↔ '>' ∈ line.take stop := by
      rw [List.mem_take_iff_idxOf_lt hmem]
      simp only [tagText, hstop, find, if_pos hmem]
      split_ifs with hle
      · simp; omega
      · simp; omega
    rw [hsome]
    constructor
    · exact fun hbefore => .inr ⟨line.take stop, after, hline, hbefore⟩
    · rintro (hnone | ⟨before, after', hline', hbefore⟩)
      · exact absurd ⟨line.take stop, after, hline.symm⟩ hnone
      · have htake : before <+: line.take stop := by
          rw [List.prefix_take_iff]
          exact ⟨⟨closingTag tag ++ after', by rw [hline', List.append_assoc]⟩, hlast before after' hline'⟩
        exact htake.subset hbefore

/-- Escaped text comes back and holds no angle bracket; the text of a tag is cut without a panic exactly where the line
has no closing tag, or has one with a `>` before it. -/
theorem xml_text (s line tag : List Char) :
    (xmlUnescape (xmlEscape s) = s ∧ '<' ∉ xmlEscape s ∧ '>' ∉ xmlEscape s) ∧
      ((tagText line tag).isSome ↔ Opened line tag) :=
  ⟨⟨xmlUnescape_xmlEscape s, xmlEscape_plain s⟩, tagText_isSome line tag⟩

/-- A reply whose only `>` ends its closing tag. -/
theorem unopened_reply_panics : tagText "<reply </reply>".toList "reply".toList = none := by
  decide +kernel

end Emucap.OpenmsxBridge.XmlText
