import Emucap.Mednafen.StateFile

/-!
# What a valid state is made of

The loops of `validate` read within the bytes, with offsets that cannot wrap as the file is short, and every round of
theirs takes a record. The records that they took are put together again: those of a section fill it, and the sections
fill the file (`ensures_validate`).
-/

namespace Emucap.Mednafen.EmucapStateFile

open Emucap.Lib

variable {bytes : List UInt8} {last cursor : ℕ}

theorem maxBytes_lt {size : ℕ} (h : size ≤ maxBytes) : size < 2 ^ 32 := by
  unfold maxBytes at h
  omega

theorem ensures_name {P : List UInt8 → Prop} {count : ℕ} (h : cursor + count ≤ bytes.length)
    (hP : nameOf (between bytes cursor (cursor + count)) ≠ [] → P (nameOf (between bytes cursor (cursor + count)))) :
    Ensures Rejects P (name bytes cursor count) := by
  rw [name, slice_eq h, ok_bind]
  exact ensures_require_bind (fun _ => rejects_reject _) fun hname => hP hname

/-- The fields from `cursor` up to `last`, with names that are not among those read before. -/
def Fields (bytes : List UInt8) (before : List (List UInt8)) (cursor last : ℕ) : Prop :=
  ∃ fields : List Field, between bytes cursor last = fields.flatMap Field.encode ∧
    (∀ f ∈ fields, f.Fits ∧ f.name ≠ [] ∧ f.name ∉ before) ∧ (fields.map Field.name).Nodup

theorem Fields.cons {before : List (List UInt8)} {nameSize count next : ℕ} (hlast : last ≤ bytes.length)
    (hname : nameSize = field bytes cursor 1) (hcount : count = field bytes (cursor + 1 + nameSize) 4)
    (hnext : next = cursor + 1 + nameSize + 4 + count) (hle : next ≤ last)
    (hne : nameOf (between bytes (cursor + 1) (cursor + 1 + nameSize)) ≠ [])
    (hnew : nameOf (between bytes (cursor + 1) (cursor + 1 + nameSize)) ∉ before)
    (h : Fields bytes (nameOf (between bytes (cursor + 1) (cursor + 1 + nameSize)) :: before) next last) :
    Fields bytes before cursor last := by
  obtain ⟨fields, hfields, hall, hnodup⟩ := h
  have hnameSize : nameSize < 256 := by
    rw [hname]
    exact field_lt (by omega)
  have hcount' : count < 256 ^ 4 := by
    rw [hcount]
    exact field_lt (by omega)
  have hrawName : (between bytes (cursor + 1) (cursor + 1 + nameSize)).length = nameSize := by
    rw [length_between (by omega)]
    omega
  have hdata : (between bytes (cursor + 1 + nameSize + 4) next).length = count := by
    rw [length_between (by omega)]
    omega
  have hencode : Field.encode ⟨between bytes (cursor + 1) (cursor + 1 + nameSize),
      between bytes (cursor + 1 + nameSize + 4) next⟩ = between bytes cursor next := by
    rw [Field.encode, hrawName, hdata, hname, hcount, littleEndian_field bytes (by omega),
      littleEndian_field bytes (by omega), ← hname, between_append_between bytes (by omega) (by omega),
      between_append_between bytes (by omega) (by omega), between_append_between bytes (by omega) (by omega)]
  refine ⟨⟨between bytes (cursor + 1) (cursor + 1 + nameSize), between bytes (cursor + 1 + nameSize + 4) next⟩ ::
    fields, ?_, List.forall_mem_cons.mpr ⟨⟨⟨?_, ?_⟩, hne, hnew⟩, ?_⟩, ?_⟩
  · rw [List.flatMap_cons, hencode, ← hfields, between_append_between bytes (by omega) hle]
  · rwa [hrawName]
  · rwa [hdata]
  · intro f hf
    obtain ⟨hfits, hname', hnot⟩ := hall f hf
    exact ⟨hfits, hname', fun hmem => hnot (List.mem_cons_of_mem _ hmem)⟩
  · rw [List.map_cons, List.nodup_cons]
    refine ⟨?_, hnodup⟩
    intro hmem
    obtain ⟨f, hf, hsame⟩ := List.mem_map.mp hmem
    exact (hall f hf).2.2 (hsame ▸ List.mem_cons_self)

theorem ensures_readFields (hlast : last ≤ bytes.length) (hsize : bytes.length < 2 ^ 32) {rounds : ℕ} :
    ∀ {before : List (List UInt8)} {totalFields cursor : ℕ}, cursor ≤ last → last - cursor < rounds →
      Ensures Rejects (fun out => out.2 = last ∧ Fields bytes before cursor last)
        (readFields bytes last rounds before totalFields cursor) := by
  induction rounds with
  | zero =>
    intro before totalFields cursor _ hrounds
    omega
  | succ rounds ih =>
    intro before totalFields cursor hcursor hrounds
    rw [readFields]
    by_cases hmore : cursor < last
    · rw [if_pos hmore, requireRoom]
      refine ensures_require_bind (fun _ => rejects_reject _) fun _ => ?_
      have hbyte : field bytes cursor 1 < 256 := field_lt (by omega)
      rw [wordAt_eq (by omega), ok_bind, plus_eq (by omega), ok_bind, plus_eq (by omega), ok_bind, requireRoom]
      refine ensures_require_bind (fun _ => rejects_reject _) fun hroom => ?_
      refine (ensures_name (P := fun name => name = nameOf (between bytes (cursor + 1)
          (cursor + 1 + field bytes cursor 1)) ∧ name ≠ []) (by omega) fun hne => ⟨rfl, hne⟩).bind ?_
      rintro _ ⟨rfl, hne⟩
      refine ensures_require_bind (fun _ => rejects_reject _) fun hnew => ?_
      have hcount : field bytes (cursor + 1 + field bytes cursor 1) 4 < 256 ^ 4 := field_lt (by omega)
      rw [plus_eq (by omega), ok_bind, wordAt_eq (by omega), ok_bind, plus_eq (by omega), ok_bind, requireRoom]
      refine ensures_require_bind (fun _ => rejects_reject _) fun hdata => ?_
      rw [plus_eq (by omega), ok_bind]
      refine (ih (by omega) (by omega)).mono ?_
      rintro out ⟨hout, hfields⟩
      exact ⟨hout, hfields.cons hlast rfl rfl rfl (by omega) hne hnew.2⟩
    · obtain rfl : cursor = last := by omega
      rw [if_neg hmore]
      refine ⟨rfl, [], ?_, by simp, List.nodup_nil⟩
      rw [between, Nat.sub_self, List.take_zero]
      rfl

/-! ## Sections -/

/-- The sections from `cursor` to the end, with names that are not among those read before. -/
def Sections (bytes : List UInt8) (before : List (List UInt8)) (cursor : ℕ) : Prop :=
  ∃ sections : List Section, bytes.drop cursor = sections.flatMap Section.encode ∧
    (∀ s ∈ sections, s.Fits ∧ s.name ≠ [] ∧ s.name ∉ before) ∧ (sections.map Section.name).Nodup

theorem drop_eq_between_append (h : cursor ≤ last) :
    bytes.drop cursor = between bytes cursor last ++ bytes.drop last := by
  have hdrop : bytes.drop last = (bytes.drop cursor).drop (last - cursor) := by
    rw [List.drop_drop, Nat.add_sub_cancel' h]
  rw [between, hdrop, List.take_append_drop]

theorem Sections.cons {before : List (List UInt8)} {length : ℕ} (hlength : length = field bytes (cursor + 32) 4)
    (hlast : last = cursor + 36 + length) (hle : last ≤ bytes.length)
    (hne : nameOf (between bytes cursor (cursor + 32)) ≠ [])
    (hnew : nameOf (between bytes cursor (cursor + 32)) ∉ before) (hfields : Fields bytes [] (cursor + 36) last)
    (h : Sections bytes (nameOf (between bytes cursor (cursor + 32)) :: before) last) :
    Sections bytes before cursor := by
  obtain ⟨fields, hbody, hall, hnodup⟩ := hfields
  obtain ⟨sections, hsections, hall', hnodup'⟩ := h
  have hlength' : length < 256 ^ 4 := by
    rw [hlength]
    exact field_lt (by omega)
  have hsize : (fields.flatMap Field.encode).length = length := by
    rw [← hbody, length_between hle]
    omega
  have hencode : Section.encode ⟨between bytes cursor (cursor + 32), fields⟩ = between bytes cursor last := by
    rw [Section.encode, Section.body, hsize, ← hbody, hlength, littleEndian_field bytes (by omega),
      between_append_between bytes (by omega) (by omega), between_append_between bytes (by omega) (by omega)]
  refine ⟨⟨between bytes cursor (cursor + 32), fields⟩ :: sections, ?_,
    List.forall_mem_cons.mpr ⟨⟨⟨?_, ?_, fun f hf => ?_, hnodup⟩, hne, hnew⟩, ?_⟩, ?_⟩
  · rw [List.flatMap_cons, hencode, ← hsections, ← drop_eq_between_append (by omega)]
  · rw [length_between (by omega)]
    omega
  · rwa [Section.body, hsize]
  · exact ⟨(hall f hf).1, (hall f hf).2.1⟩
  · intro s hs
    obtain ⟨hfits, hname, hnot⟩ := hall' s hs
    exact ⟨hfits, hname, fun hmem => hnot (List.mem_cons_of_mem _ hmem)⟩
  · rw [List.map_cons, List.nodup_cons]
    refine ⟨?_, hnodup'⟩
    intro hmem
    obtain ⟨s, hs, hsame⟩ := List.mem_map.mp hmem
    exact (hall' s hs).2.2 (hsame ▸ List.mem_cons_self)

theorem ensures_readSections (hsize : bytes.length < 2 ^ 32) {rounds : ℕ} :
    ∀ {before : List (List UInt8)} {totalFields cursor : ℕ}, cursor ≤ bytes.length → bytes.length - cursor < rounds →
      Ensures Rejects (fun _ => Sections bytes before cursor)
        (readSections bytes rounds before totalFields cursor) := by
  induction rounds with
  | zero =>
    intro before totalFields cursor _ hrounds
    omega
  | succ rounds ih =>
    intro before totalFields cursor hcursor hrounds
    rw [readSections]
    by_cases hmore : cursor < bytes.length
    · rw [if_pos hmore, requireRoom]
      refine ensures_require_bind (fun _ => rejects_reject _) fun hroom => ?_
      refine (ensures_name (P := fun name => name = nameOf (between bytes cursor (cursor + 32)) ∧ name ≠ []) (by omega)
        fun hne => ⟨rfl, hne⟩).bind ?_
      rintro _ ⟨rfl, hne⟩
      refine ensures_require_bind (fun _ => rejects_reject _) fun hnew => ?_
      have hlength : field bytes (cursor + 32) 4 < 256 ^ 4 := field_lt (by omega)
      rw [plus_eq (by omega), ok_bind, wordAt_eq (by omega), ok_bind, plus_eq (by omega), ok_bind, requireRoom]
      refine ensures_require_bind (fun _ => rejects_reject _) fun hbody => ?_
      rw [plus_eq (by omega), ok_bind]
      refine (ensures_readFields (by omega) hsize (by omega) (by omega)).bind ?_
      rintro ⟨totalFields', cursor'⟩ ⟨hend, hfields⟩
      obtain rfl : cursor' = cursor + 36 + field bytes (cursor + 32) 4 := hend
      refine (ih (by omega) (by omega)).mono fun _ hsections => ?_
      exact hsections.cons rfl rfl (by omega) hne hnew.2 hfields
    · rw [if_neg hmore]
      refine ⟨[], ?_, by simp, List.nodup_nil⟩
      rw [List.drop_of_length_le (by omega)]
      rfl

/-! ## The file -/

theorem ensures_previewSize (hlower : 32 ≤ bytes.length) (hupper : bytes.length < 2 ^ 32) :
    Ensures Rejects (fun preview => 32 + preview ≤ bytes.length ∧
      preview = field bytes 24 4 * field bytes 28 4 * 3) (previewSize bytes) := by
  rw [previewSize, wordAt_eq (by omega), ok_bind, wordAt_eq (by omega), ok_bind, minus_eq hlower, ok_bind]
  refine ensures_require_bind (fun _ => rejects_reject _) fun hfits => ?_
  have hroom : field bytes 24 4 * field bytes 28 4 * 3 ≤ bytes.length - 32 := by
    rcases hfits with hzero | hle
    · rw [hzero, Nat.mul_zero, Nat.zero_mul]
      exact Nat.zero_le _
    · have hmul := Nat.mul_le_of_le_div _ _ _ hle
      exact Nat.mul_le_of_le_div _ _ _ hmul
  rw [times_eq (by omega), ok_bind, times_eq (by omega)]
  exact ⟨by omega, rfl⟩

/-- The number of the last byte of the preview image. -/
def previewEnd (bytes : List UInt8) : ℕ := 32 + field bytes 24 4 * field bytes 28 4 * 3

/-- What is known of a state that was accepted. -/
structure Valid (bytes : List UInt8) : Prop where
  lower : 32 ≤ bytes.length
  upper : bytes.length ≤ maxBytes
  declared : field bytes 20 4 % 2 ^ 31 = bytes.length
  tiled : Tiled bytes (previewEnd bytes)

/-- Whatever the bytes are, they are rejected, or they are tiled; no read is outside and no offset wraps. -/
theorem ensures_validate (bytes : List UInt8) : Ensures Rejects (fun _ => Valid bytes) (validate bytes) := by
  rw [validate]
  refine ensures_require_bind (fun _ => rejects_reject _) fun ⟨hlower, hupper⟩ => ?_
  have hsize := maxBytes_lt hupper
  have hmagic : Ensures Rejects (fun _ => True) (checkMagic bytes) := by
    rw [checkMagic, slice_eq (by omega), ok_bind]
    split
    · trivial
    · rw [slice_eq (by omega), ok_bind]
      exact (ensures_require fun _ => rejects_reject _).mono fun _ _ => trivial
  refine hmagic.bind fun _ _ => ?_
  rw [wordAt_eq (by omega), ok_bind]
  refine ensures_require_bind (fun _ => rejects_reject _) fun _ => ?_
  rw [wordAt_eq (by omega), ok_bind]
  refine ensures_require_bind (fun _ => rejects_reject _) fun hdeclared => ?_
  refine (ensures_previewSize hlower hsize).bind ?_
  rintro preview ⟨hpreview, heq⟩
  rw [plus_eq (by omega), ok_bind]
  refine (ensures_readSections hsize hpreview (by omega)).mono ?_
  rintro - ⟨sections, hsections, hall, hnodup⟩
  have hend : previewEnd bytes = 32 + preview := by rw [previewEnd, heq]
  refine ⟨hlower, hupper, hdeclared, ?_, sections, ?_, fun s hs => ⟨(hall s hs).1, (hall s hs).2.1⟩, hnodup⟩
  · rw [hend]
    exact hpreview
  · rw [hend]
    exact hsections

end Emucap.Mednafen.EmucapStateFile
