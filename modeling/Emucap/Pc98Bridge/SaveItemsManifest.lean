import Emucap.Pc98Bridge.SaveItems

/-!
# What an accepted manifest of save items says

The entries of an accepted manifest are the lines of its text in order, with portable names that are distinct also
without regard to case, and lengths whose sum is within the limit. The loop keeps this of the lines it has gone over.
-/

namespace Emucap.Pc98Bridge

open Emucap.Lib

def AnyError (_ : ArchiveError) : Prop := True

def decimalValue (field : List Char) : ℕ := Nat.ofDigitChars 10 field 0

/-- A line declares the entry: its length is that of `count` items of `size` bytes. -/
def LineDeclares (line : List Char) (entry : SaveItemManifestEntry) : Prop :=
  ∃ index size count bytes, line.splitOn '|' = [index, size, count, bytes, entry.filename.toList] ∧
    (isDecimal index ∧ isDecimal size ∧ isDecimal count ∧ isDecimal bytes) ∧
    entry.bytesLen = decimalValue bytes ∧ entry.bytesLen = decimalValue size * decimalValue count

structure DeclaredBy (lines : List (List Char)) (entries : List SaveItemManifestEntry) : Prop where
  lines : List.Forall₂ LineDeclares lines entries
  distinct : (entries.map fun entry => toAsciiLowercase entry.filename).Nodup
  portable : ∀ entry ∈ entries, isPortableFileName entry.filename maxSaveItemFilenameBytes ∧
    toAsciiLowercase entry.filename ≠ toAsciiLowercase "manifest.txt"
  small : ∀ entry ∈ entries, entry.bytesLen ≤ maxSaveItemMemberBytes
  count : entries.length ≤ maxSaveItemMembers - 1
  total : (entries.map SaveItemManifestEntry.bytesLen).sum ≤ maxSaveItemTotalBytes

structure Collected (lines : List (List Char)) (found : ManifestReading) : Prop where
  declared : DeclaredBy lines found.entries
  filenames : found.filenames = found.entries.map fun entry => toAsciiLowercase entry.filename
  totalBytes : found.totalBytes = (found.entries.map SaveItemManifestEntry.bytesLen).sum

theorem ensures_parseDecimal {lineNumber : ℕ} {field : List Char} {name : String} :
    Ensures AnyError (fun value => isDecimal field ∧ value = decimalValue field)
      (parseDecimal lineNumber field name) := by
  refine ensures_require_bind (fun _ => trivial) fun hdecimal => ?_
  refine ensures_orError_bind (fun _ => trivial) fun value hvalue => ?_
  refine ensures_require_bind (fun _ => trivial) fun _ => ?_
  refine ⟨hdecimal, ?_⟩
  have hplus : field.head? ≠ some '+' := by
    intro hplus
    obtain ⟨rest, rfl⟩ := List.head?_eq_some_iff.mp hplus
    simp [isDecimal] at hdecimal
  rw [InputMovie.parseU64, if_neg hplus, Option.ite_none_right_eq_some, Option.some.injEq] at hvalue
  exact hvalue.2.symm

theorem Collected.append {lines : List (List Char)} {found : ManifestReading} {line filename : List Char}
    {index size count bytes : List Char} {lineNumber : ℕ} (h : Collected lines found)
    (hcount : found.entries.length < maxSaveItemMembers - 1)
    (hfields : line.splitOn '|' = [index, size, count, bytes, filename]) :
    Ensures AnyError (Collected (lines ++ [line])) (parseFields lineNumber found index size count bytes filename) := by
  refine (ensures_parseDecimal).bind fun _ ⟨hindex, _⟩ => ?_
  refine (ensures_parseDecimal).bind fun _ ⟨hsize, hsizeValue⟩ => ?_
  refine (ensures_parseDecimal).bind fun _ ⟨hcounts, hcountValue⟩ => ?_
  refine (ensures_parseDecimal).bind fun bytesLen ⟨hbytes, hbytesValue⟩ => ?_
  refine ensures_orError_bind (fun _ => trivial) fun expected hexpected => ?_
  obtain ⟨-, rfl⟩ := checkedMul_eq_some.mp hexpected
  refine ensures_require_bind (fun _ => trivial) fun hlen => ?_
  refine ensures_require_bind (fun _ => trivial) fun hsmall => ?_
  refine ensures_require_bind (fun _ => trivial) fun hportable => ?_
  refine ensures_require_bind (fun _ => trivial) fun _ => ?_
  refine ensures_require_bind (fun _ => trivial) fun hnew => ?_
  refine ensures_orError_bind (fun _ => trivial) fun total htotal => ?_
  obtain ⟨-, rfl⟩ := checkedAdd_eq_some.mp htotal
  refine ensures_require_bind (fun _ => trivial) fun hbound => ?_
  have hline : LineDeclares line ⟨String.ofList filename, bytesLen⟩ := by
    refine ⟨index, size, count, bytes, ?_, ⟨hindex, hsize, hcounts, hbytes⟩, hbytesValue, ?_⟩
    · rw [hfields, String.toList_ofList]
    · rw [← hsizeValue, ← hcountValue]
      exact hlen
  have hsum : ((found.entries ++ [SaveItemManifestEntry.mk (String.ofList filename) bytesLen]).map
      SaveItemManifestEntry.bytesLen).sum = found.totalBytes + bytesLen := by
    rw [List.map_append, List.sum_append, ← h.totalBytes]
    simp
  have hold := h.declared
  refine ⟨⟨?_, ?_, ?_, ?_, ?_, ?_⟩, ?_, hsum.symm⟩
  · exact List.rel_append hold.lines (.cons hline .nil)
  · rw [List.map_append, List.map_singleton, ← h.filenames, List.nodup_append_comm, List.singleton_append,
      List.nodup_cons]
    exact ⟨hnew, h.filenames ▸ hold.distinct⟩
  · exact List.forall_mem_append.mpr ⟨hold.portable, List.forall_mem_singleton.mpr hportable⟩
  · exact List.forall_mem_append.mpr ⟨hold.small, List.forall_mem_singleton.mpr hsmall⟩
  · rw [List.length_append, List.length_singleton]
    omega
  · rw [hsum]
    exact hbound
  · rw [List.map_append, h.filenames]
    rfl

theorem Collected.line {lines : List (List Char)} {found : ManifestReading} {line : List Char} {lineNumber : ℕ}
    (h : Collected lines found) :
    Ensures AnyError (Collected (lines ++ [line])) (parseManifestLine lineNumber found line) := by
  refine ensures_require_bind (fun _ => trivial) fun _ => ?_
  refine ensures_require_bind (fun _ => trivial) fun hcount => ?_
  split
  · exact h.append hcount ‹_›
  · trivial

theorem Collected.run {lines rest : List (List Char)} {found : ManifestReading} {lineNumber : ℕ}
    (h : Collected lines found) :
    Ensures AnyError (Collected (lines ++ rest)) (parseManifestLines lineNumber found rest) := by
  induction rest generalizing lines found lineNumber with
  | nil =>
    rw [List.append_nil]
    exact h
  | cons line rest ih =>
    refine h.line.bind fun found' hfound => ?_
    have hrest := @ih (lines ++ [line]) found' (lineNumber + 1) hfound
    rwa [List.append_assoc, List.singleton_append] at hrest

theorem collected_nil : Collected [] ⟨[], [], [], 0⟩ :=
  ⟨⟨.nil, List.nodup_nil, nofun, nofun, Nat.zero_le _, Nat.zero_le _⟩, rfl, rfl⟩

theorem ensures_parseSaveItemManifest {bytes : List UInt8} :
    Ensures AnyError (fun entries => ∃ text, fromUtf8 bytes = some text ∧
        DeclaredBy (splitTerminator '\n' text.toList) entries)
      (parseSaveItemManifest bytes) := by
  refine ensures_orError_bind (fun _ => trivial) fun text htext => ?_
  refine (collected_nil).run.bind fun found hfound => ?_
  exact ⟨text, htext, hfound.declared⟩

end Emucap.Pc98Bridge
