import Emucap.Mednafen.Snapshot
import Emucap.Mednafen.StateTiles

/-!
# Round trips of snapshot containers

`Contains` says what a container of a native state and four blocks is, in terms of its bytes. `encode` writes just
that where it succeeds, and `decode` accepts just that with a history, so each undoes the other.
-/

namespace Emucap.Mednafen.EmucapSnapshot

open Emucap.Lib

variable {sha256 : List UInt8 → Bytes32} {bytes native : List UInt8} {identity : Bytes32} {blocks : Blocks}

/-! ## Containers -/

def SizeOk (index size : ℕ) : Prop := size ≤ limits.getD index 0 ∧ (index = 3 ∨ size ≠ 0)

def SizesOk : ℕ → List ℕ → Prop
  | _, [] => True
  | index, size :: sizes => SizeOk index size ∧ SizesOk (index + 1) sizes

/-- The bytes are a container of the state and the blocks. -/
structure Contains (sha256 : List UInt8 → Bytes32) (bytes native : List UInt8) (identity : Bytes32) (blocks : Blocks) :
    Prop where
  valid : EmucapStateFile.validate native = .ok ()
  sizes : SizesOk 0 (blocks.toList.map List.length)
  total : native.length + headerSize + 32 + (blocks.toList.map List.length).sum ≤ maxBytes
  bytes : bytes = sealed sha256 (native ++ header identity blocks ++ blocks.toList.flatten)

theorem validate_valid (h : EmucapStateFile.validate native = .ok ()) : EmucapStateFile.Valid native :=
  (EmucapStateFile.ensures_validate native).ok h

theorem addSizes_ok {parts : List (List UInt8)} {index total out : ℕ} (htotal : total ≤ maxBytes) :
    addSizes index parts total = .ok out ↔
      SizesOk index (parts.map List.length) ∧ total + (parts.map List.length).sum ≤ maxBytes ∧
        out = total + (parts.map List.length).sum := by
  have hmax : maxBytes = 512 * 1024 * 1024 := rfl
  induction parts generalizing index total with
  | nil =>
    simp only [addSizes, List.map_nil, SizesOk, List.sum_nil, Nat.add_zero, true_and]
    exact ⟨fun h => ⟨htotal, (Except.ok.inj h).symm⟩, fun h => congrArg Except.ok h.2.symm⟩
  | cons block parts ih =>
    simp only [addSizes, checkSize, require_bind_eq_ok, minus_eq htotal, ok_bind, List.map_cons, SizesOk, List.sum_cons]
    by_cases hroom : block.length ≤ maxBytes - total
    · have hnext : total + block.length ≤ maxBytes := by omega
      have hrest := @ih (index + 1) (total + block.length) hnext
      rw [plus_eq (by omega), ok_bind]
      simp only [hrest, hroom, true_and, SizeOk, and_assoc, Nat.add_assoc]
    · constructor
      · exact fun h => absurd h.2.1 hroom
      · intro h
        omega

theorem encode_ok :
    encode sha256 native identity blocks = .ok bytes ↔ Contains sha256 bytes native identity blocks := by
  have hmax : maxBytes = 512 * 1024 * 1024 := rfl
  have hheader : headerSize = 72 := rfl
  rw [encode, bind_eq_ok]
  constructor
  · rintro ⟨u, hvalid, h⟩
    have hupper : native.length ≤ 128 * 1024 * 1024 := (validate_valid hvalid).upper
    rw [plus_eq (by omega), ok_bind, plus_eq (by omega), ok_bind, bind_eq_ok] at h
    obtain ⟨out, hsizes, h⟩ := h
    obtain ⟨hall, htotal, -⟩ := (addSizes_ok (by omega)).mp hsizes
    cases h
    exact ⟨hvalid, hall, htotal, rfl⟩
  · rintro ⟨hvalid, hall, htotal, rfl⟩
    have hupper : native.length ≤ 128 * 1024 * 1024 := (validate_valid hvalid).upper
    refine ⟨(), hvalid, ?_⟩
    rw [plus_eq (by omega), ok_bind, plus_eq (by omega), ok_bind, (addSizes_ok (by omega)).mpr ⟨hall, htotal, rfl⟩]
    rfl

/-! ## Decoding -/

theorem ensures_readLengths {nativeSize last count : ℕ} (hlast : last + 32 = bytes.length)
    (hmax : bytes.length ≤ maxBytes) :
    ∀ {index cursor : ℕ}, nativeSize + 40 + (index + count) * 8 ≤ bytes.length → cursor ≤ last →
      Ensures Rejects (fun out => out.1.length = count ∧ SizesOk index out.1 ∧ out.2 = cursor + out.1.sum ∧
        out.2 ≤ last ∧ out.1.flatMap (littleEndian 8) =
          between bytes (nativeSize + 40 + index * 8) (nativeSize + 40 + (index + count) * 8))
        (readLengths bytes nativeSize last index count cursor) := by
  have hbound : maxBytes = 512 * 1024 * 1024 := rfl
  induction count with
  | zero =>
    intro index cursor _ hcursor
    refine ⟨rfl, trivial, rfl, hcursor, ?_⟩
    simp [between]
  | succ count ih =>
    intro index cursor hroom hcursor
    rw [readLengths, plus_eq (by omega), ok_bind, wordAt_eq (by omega), ok_bind, checkSize]
    refine ensures_require_bind (fun _ => rejects_reject _) fun hsize => ?_
    rw [minus_eq hcursor, ok_bind]
    refine ensures_require_bind (fun _ => rejects_reject _) fun hfits => ?_
    rw [plus_eq (by omega), ok_bind]
    refine (@ih (index + 1) (cursor + field bytes (nativeSize + (40 + index * 8)) 8) (by omega) (by omega)).bind ?_
    rintro ⟨lengths, next⟩ ⟨hlength, hsizes, hnext, hle, hspell⟩
    refine ⟨by simp [hlength], ⟨hsize, hsizes⟩, ?_, hle, ?_⟩
    · simp only at hnext ⊢
      rw [hnext, List.sum_cons, Nat.add_assoc]
    · simp only at hspell ⊢
      rw [List.flatMap_cons, hspell, littleEndian_field bytes (by omega),
        show nativeSize + (40 + index * 8) = nativeSize + 40 + index * 8 by omega,
        show nativeSize + 40 + index * 8 + 8 = nativeSize + 40 + (index + 1) * 8 by omega,
        show index + (count + 1) = index + 1 + count by omega, between_append_between bytes (by omega) (by omega)]

theorem ensures_readBlocks (hmax : bytes.length ≤ maxBytes) {lengths : List ℕ} :
    ∀ {cursor : ℕ}, cursor + lengths.sum ≤ bytes.length →
      Ensures Rejects (fun parts => parts.map List.length = lengths ∧
        parts.flatten = between bytes cursor (cursor + lengths.sum)) (readBlocks bytes lengths cursor) := by
  have hbound : maxBytes = 512 * 1024 * 1024 := rfl
  induction lengths with
  | nil =>
    intro cursor _
    refine ⟨rfl, ?_⟩
    rw [List.sum_nil, Nat.add_zero, between, Nat.sub_self, List.take_zero]
    rfl
  | cons length lengths ih =>
    intro cursor hroom
    rw [List.sum_cons] at hroom
    rw [readBlocks, slice_eq (by omega), ok_bind, plus_eq (by omega), ok_bind]
    refine (@ih (cursor + length) (by omega)).bind ?_
    rintro parts ⟨hlengths, hflatten⟩
    refine ⟨?_, ?_⟩
    · rw [List.map_cons, hlengths, length_between (by omega), Nat.add_sub_cancel_left]
    · rw [List.flatten_cons, hflatten, between_append_between bytes (by omega) (by omega), List.sum_cons, Nat.add_assoc]

theorem take_last_eq {n last : ℕ} (hfirst : n + 72 ≤ last) :
    bytes.take last = bytes.take n ++ (between bytes n (n + 8) ++ between bytes (n + 8) (n + 8 + 32) ++
      between bytes (n + 40) (n + 40 + 32)) ++ between bytes (n + 72) last := by
  rw [between_append_between bytes (by omega) (by omega), between_append_between bytes (by omega) (by omega),
    take_append_between bytes (by omega), take_append_between bytes hfirst]

theorem ensures_decodeHistory {nativeSize : ℕ} (hlower : 32 ≤ bytes.length) (hmax : bytes.length ≤ maxBytes)
    (hsize : nativeSize ≤ bytes.length) (hvalid : EmucapStateFile.validate (bytes.take nativeSize) = .ok ()) :
    Ensures Rejects (fun s => s.nativeSize = nativeSize ∧ s.history = true ∧
      Contains sha256 bytes (bytes.take nativeSize) identity s.blocks)
      (decodeHistory sha256 bytes nativeSize identity) := by
  have hbound : maxBytes = 512 * 1024 * 1024 := rfl
  have hheader : headerSize = 72 := rfl
  rw [decodeHistory, minus_eq hsize, ok_bind]
  refine ensures_require_bind (fun _ => rejects_reject _) fun hroom => ?_
  rw [slice_eq (by omega), ok_bind]
  refine ensures_require_bind (fun _ => rejects_reject _) fun hmagic => ?_
  rw [plus_eq (by omega), ok_bind, slice_eq (by omega), ok_bind]
  refine ensures_require_bind (fun _ => rejects_reject _) fun hidentity => ?_
  rw [minus_eq hlower, ok_bind, slice_eq (by omega), ok_bind, slice_eq (by omega), ok_bind]
  refine ensures_require_bind (fun _ => rejects_reject _) fun hdigest => ?_
  rw [plus_eq (by omega), ok_bind]
  refine (@ensures_readLengths bytes nativeSize _ 4 (by omega) hmax 0 _ (by omega) (by omega)).bind ?_
  rintro ⟨lengths, cursor⟩ ⟨hfour, hsizes, hcursor, hle, hspell⟩
  refine ensures_require_bind (fun _ => rejects_reject _) fun hend => ?_
  simp only at hfour hsizes hcursor hspell hend
  refine (ensures_readBlocks hmax (by omega)).bind fun parts ⟨hlengths, hflatten⟩ => ?_
  have hcount : parts.length = 4 := by
    rw [← hfour, ← hlengths, List.length_map]
  obtain ⟨raster, filters, completed, activeFrame, rfl⟩ := List.length_eq_four.mp hcount
  refine ⟨rfl, rfl, hvalid, ?_, ?_, ?_⟩
  · show SizesOk 0 ([raster, filters, completed, activeFrame].map List.length)
    rw [hlengths]
    exact hsizes
  · show _ + ([raster, filters, completed, activeFrame].map List.length).sum ≤ maxBytes
    rw [hlengths, List.length_take]
    omega
  · have htext : between bytes 0 (0 + (bytes.length - 32)) = bytes.take (bytes.length - 32) := by
      rw [Nat.zero_add, between_zero]
    have hspell' : [raster, filters, completed, activeFrame].flatMap (fun block => littleEndian 8 block.length) =
        between bytes (nativeSize + 40) (nativeSize + 40 + 32) := by
      rw [← List.flatMap_map, hlengths]
      exact hspell
    have hblocks : [raster, filters, completed, activeFrame].flatten =
        between bytes (nativeSize + 72) (bytes.length - 32) := by
      rw [hflatten, ← hcursor, hend, hheader]
    have hsealed : bytes = bytes.take (bytes.length - 32) ++
        between bytes (bytes.length - 32) (bytes.length - 32 + 32) := by
      rw [take_append_between bytes (by omega), Nat.sub_add_cancel hlower, List.take_length]
    rw [hdigest, htext] at hsealed
    have hparts := @take_last_eq bytes nativeSize (bytes.length - 32) (by omega)
    rw [hmagic, hidentity, ← hspell', ← hblocks] at hparts
    rw [hparts] at hsealed
    exact hsealed

/-- What is known of a decoded container. -/
structure Decoded (sha256 : List UInt8 → Bytes32) (bytes : List UInt8) (identity : Bytes32) (s : EmucapSnapshot) :
    Prop where
  size : s.nativeSize ≤ bytes.length
  valid : EmucapStateFile.validate (bytes.take s.nativeSize) = .ok ()
  native : s.history = false → s.nativeSize = bytes.length
  history : s.history = true → Contains sha256 bytes (bytes.take s.nativeSize) identity s.blocks

theorem ensures_decode (sha256 : List UInt8 → Bytes32) (bytes : List UInt8) (identity : Bytes32) :
    Ensures Rejects (Decoded sha256 bytes identity) (decode sha256 bytes identity) := by
  rw [decode]
  refine ensures_require_bind (fun _ => rejects_reject _) fun ⟨hlower, hmax⟩ => ?_
  rw [wordAt_eq (by omega), ok_bind]
  refine ensures_require_bind (fun _ => rejects_reject _) fun hsize => ?_
  refine (EmucapStateFile.ensures_validate _).self.bind fun _ ⟨_, hvalid⟩ => ?_
  by_cases hsame : bytes.length = field bytes 20 4 % 2 ^ 31
  · rw [if_pos hsame]
    exact ⟨hsize, hvalid, fun _ => hsame.symm, nofun⟩
  · rw [if_neg hsame]
    refine (ensures_decodeHistory hlower hmax hsize hvalid).mono ?_
    rintro s ⟨hnative, hhistory, hcontains⟩
    rw [← hnative] at hsize hvalid hcontains
    exact ⟨hsize, hvalid, fun h => absurd (h.symm.trans hhistory) Bool.false_ne_true, fun _ => hcontains⟩

/-! ## Reading back -/

theorem readLengths_ok {nativeSize last : ℕ} (hlast : last ≤ bytes.length) (hmax : bytes.length ≤ maxBytes)
    {parts : List (List UInt8)} : ∀ {index cursor : ℕ}, nativeSize + 40 + (index + parts.length) * 8 ≤ bytes.length →
      (parts.flatMap fun block => littleEndian 8 block.length) =
        between bytes (nativeSize + 40 + index * 8) (nativeSize + 40 + (index + parts.length) * 8) →
      SizesOk index (parts.map List.length) → cursor + (parts.map List.length).sum ≤ last →
      readLengths bytes nativeSize last index parts.length cursor =
        .ok (parts.map List.length, cursor + (parts.map List.length).sum) := by
  have hbound : maxBytes = 512 * 1024 * 1024 := rfl
  induction parts with
  | nil => exact fun _ _ _ _ => rfl
  | cons block parts ih =>
    intro index cursor hroom hspell hsizes hfits
    rw [List.map_cons, List.sum_cons] at hfits
    rw [List.length_cons] at hroom hspell
    obtain ⟨hsize, hsizes⟩ := hsizes
    unfold SizeOk at hsize
    rw [List.flatMap_cons, ← between_append_between bytes
      (show nativeSize + 40 + index * 8 ≤ nativeSize + 40 + index * 8 + 8 by omega) (by omega)] at hspell
    obtain ⟨hhead, htail⟩ := List.append_inj hspell (by
      rw [length_littleEndian, length_between (by omega)]
      omega)
    have hlength : field bytes (nativeSize + (40 + index * 8)) 8 = block.length := by
      rw [field, show nativeSize + (40 + index * 8) = nativeSize + 40 + index * 8 by omega, ← hhead,
        ofLittleEndian_littleEndian (by omega)]
    rw [List.length_cons, readLengths, plus_eq (by omega), ok_bind, wordAt_eq (by omega), ok_bind, hlength, checkSize,
      require, if_pos hsize, ok_bind, minus_eq (by omega), ok_bind, require, if_pos (by omega), ok_bind,
      plus_eq (by omega), ok_bind, @ih (index + 1) (cursor + block.length) (by omega)]
    · rw [ok_bind, List.map_cons, List.sum_cons, Nat.add_assoc]
      rfl
    · rw [htail]
      congr 1 <;> omega
    · exact hsizes
    · omega

theorem readBlocks_ok (hmax : bytes.length ≤ maxBytes) {parts : List (List UInt8)} :
    ∀ {cursor : ℕ}, cursor + (parts.map List.length).sum ≤ bytes.length →
      parts.flatten = between bytes cursor (cursor + (parts.map List.length).sum) →
      readBlocks bytes (parts.map List.length) cursor = .ok parts := by
  have hbound : maxBytes = 512 * 1024 * 1024 := rfl
  induction parts with
  | nil => exact fun _ _ => rfl
  | cons block parts ih =>
    intro cursor hroom hflatten
    rw [List.map_cons, List.sum_cons] at hroom hflatten
    rw [List.flatten_cons, ← between_append_between bytes (show cursor ≤ cursor + block.length by omega) (by omega)]
      at hflatten
    obtain ⟨hhead, htail⟩ := List.append_inj hflatten (by
      rw [length_between (by omega)]
      omega)
    rw [List.map_cons, readBlocks, slice_eq (by omega), ok_bind, plus_eq (by omega), ok_bind, ← hhead,
      @ih (cursor + block.length) (by omega)]
    · rfl
    · rw [htail, Nat.add_assoc]

theorem Contains.parts (h : Contains sha256 bytes native identity blocks) :
    let last := native.length + 72 + (blocks.toList.map List.length).sum
    bytes.length = last + 32 ∧ bytes.take native.length = native ∧
      between bytes native.length (native.length + 8) = magic ∧
      between bytes (native.length + 8) (native.length + 8 + 32) = identity.1 ∧
      (blocks.toList.flatMap fun block => littleEndian 8 block.length) =
        between bytes (native.length + 40) (native.length + 72) ∧
      blocks.toList.flatten = between bytes (native.length + 72) last ∧
      between bytes last (last + 32) = (sha256 (bytes.take last)).1 := by
  intro last
  obtain ⟨lens, hlens⟩ : ∃ lens, (blocks.toList.flatMap fun block => littleEndian 8 block.length) = lens := ⟨_, rfl⟩
  obtain ⟨flat, hflat⟩ : ∃ flat, blocks.toList.flatten = flat := ⟨_, rfl⟩
  obtain ⟨text, htext⟩ : ∃ text, native ++ (magic ++ identity.1 ++ lens) ++ flat = text := ⟨_, rfl⟩
  have hmagic : magic.length = 8 := by decide +kernel
  have hlens' : lens.length = 32 := by
    rw [← hlens]
    simp [Blocks.toList]
  have hflat' : native.length + 72 + flat.length = last := by
    rw [← hflat, List.length_flatten]
  have hidentity := identity.2
  have hdigest := (sha256 text).2
  have hlast : text.length = last := by
    rw [← htext]
    simp only [List.length_append, hmagic, hidentity, hlens']
    omega
  have hbytes : bytes = text ++ (sha256 text).1 := by
    rw [h.bytes, sealed, header, hlens, hflat, htext]
  have h₁ : bytes = native ++ (magic ++ (identity.1 ++ (lens ++ (flat ++ (sha256 text).1)))) := by
    rw [hbytes, ← htext]
    simp only [List.append_assoc]
  have h₂ : bytes = (native ++ magic) ++ (identity.1 ++ (lens ++ (flat ++ (sha256 text).1))) := by
    rw [h₁, List.append_assoc]
  have h₃ : bytes = (native ++ magic ++ identity.1) ++ (lens ++ (flat ++ (sha256 text).1)) := by
    rw [h₂, List.append_assoc (native ++ magic)]
  have h₄ : bytes = (native ++ magic ++ identity.1 ++ lens) ++ (flat ++ (sha256 text).1) := by
    rw [h₃, List.append_assoc (native ++ magic ++ identity.1)]
  have h₅ : bytes = text ++ ((sha256 text).1 ++ []) := by rw [hbytes, List.append_nil]
  rw [hlens, hflat]
  refine ⟨?_, ?_, ?_, ?_, ?_, ?_, ?_⟩
  · rw [hbytes, List.length_append, hlast, hdigest]
  · rw [h₁, List.take_left]
  · exact between_middle h₁ rfl (by rw [hmagic])
  · exact between_middle h₂ (by rw [List.length_append, hmagic]) (by rw [hidentity])
  · exact (between_middle h₃ (by simp only [List.length_append, hmagic, hidentity]) (by rw [hlens'])).symm
  · exact (between_middle h₄ (by simp only [List.length_append, hmagic, hidentity, hlens']) hflat').symm
  · have htake : bytes.take last = text := by rw [hbytes, List.take_left' hlast]
    rw [htake]
    exact between_middle h₅ hlast (by rw [hdigest])

theorem decode_of_contains (h : Contains sha256 bytes native identity blocks) :
    decode sha256 bytes identity = .ok ⟨native.length, true, blocks⟩ := by
  have hbound : maxBytes = 512 * 1024 * 1024 := rfl
  have hheader : headerSize = 72 := rfl
  obtain ⟨hlower, hupper, hdeclared, -⟩ := validate_valid h.valid
  have htotal := h.total
  obtain ⟨hlength, htake, hmagic, hidentity, hlens, hflat, hdigest⟩ := h.parts
  generalize hlast : native.length + 72 + (blocks.toList.map List.length).sum = last at hlength hflat hdigest
  have hfield : field bytes 20 4 = field native 20 4 := by
    rw [← field_take bytes (show 20 + 4 ≤ native.length by omega), htake]
  have hfour : blocks.toList.length = 4 := rfl
  have hlengths : readLengths bytes native.length last 0 4 (native.length + headerSize) =
      .ok (blocks.toList.map List.length, last) := by
    have hread := @readLengths_ok bytes native.length last (by omega) (by omega) blocks.toList 0
      (native.length + headerSize) (by omega) hlens h.sizes (by omega)
    rwa [hfour, hheader, hlast] at hread
  have hblocks : readBlocks bytes (blocks.toList.map List.length) (native.length + headerSize) = .ok blocks.toList :=
    readBlocks_ok (by omega) (by omega) (by rw [hheader, hlast, hflat])
  rw [decode, require_bind_of (by omega), wordAt_eq (by omega), ok_bind, hfield, hdeclared]
  rw [require_bind_of (by omega), htake, h.valid, ok_bind, if_neg (by omega), decodeHistory, minus_eq (by omega),
    ok_bind, require_bind_of (by omega), slice_eq (by omega), ok_bind, hmagic, require_bind_of rfl, plus_eq (by omega), ok_bind,
    slice_eq (by omega), ok_bind, hidentity, require_bind_of rfl, minus_eq (by omega), ok_bind,
    show bytes.length - 32 = last by omega, slice_eq (by omega), ok_bind, slice_eq (by omega), ok_bind, hdigest,
    Nat.zero_add, between_zero, require_bind_of rfl, plus_eq (by omega), ok_bind, hlengths, ok_bind]
  dsimp only
  rw [require_bind_of rfl, hblocks, ok_bind]
  rfl

theorem decode_of_native (h : EmucapStateFile.validate bytes = .ok ()) :
    decode sha256 bytes identity = .ok ⟨bytes.length, false, ⟨[], [], [], []⟩⟩ := by
  have hbound : maxBytes = 512 * 1024 * 1024 := rfl
  obtain ⟨hlower, hupper, hdeclared, -⟩ := validate_valid h
  have hupper' : bytes.length ≤ 128 * 1024 * 1024 := hupper
  rw [decode, require_bind_of (by omega), wordAt_eq (by omega), ok_bind, hdeclared]
  rw [require_bind_of (Nat.le_refl _), List.take_length, h, ok_bind, if_pos rfl]

/-- For any digest function: `decode` undoes `encode`, `encode` undoes `decode` with a history, a container without one
is a native state, and whatever the bytes are they are rejected or they are tiled. -/
theorem snapshot_containers (sha256 : List UInt8 → Bytes32) (identity : Bytes32) :
    (∀ native blocks bytes, encode sha256 native identity blocks = .ok bytes →
      decode sha256 bytes identity = .ok ⟨native.length, true, blocks⟩ ∧ bytes.take native.length = native) ∧
    (∀ bytes s, decode sha256 bytes identity = .ok s → s.history = true →
      encode sha256 (bytes.take s.nativeSize) identity s.blocks = .ok bytes) ∧
    (∀ bytes, (∃ s, decode sha256 bytes identity = .ok s ∧ s.history = false) ↔
      EmucapStateFile.validate bytes = .ok ()) ∧
    ∀ bytes, (∀ e, EmucapStateFile.validate bytes = .error e → Rejects e) ∧
      (EmucapStateFile.validate bytes = .ok () →
        EmucapStateFile.Tiled bytes (EmucapStateFile.previewEnd bytes)) ∧
      (∀ e, decode sha256 bytes identity = .error e → Rejects e) ∧
      ∀ s, decode sha256 bytes identity = .ok s → EmucapStateFile.Tiled (bytes.take s.nativeSize)
        (EmucapStateFile.previewEnd (bytes.take s.nativeSize)) := by
  refine ⟨?_, ?_, ?_, ?_⟩
  · intro native blocks bytes h
    have hcontains := (encode_ok).mp h
    exact ⟨decode_of_contains hcontains, hcontains.parts.2.1⟩
  · intro bytes s h hhistory
    exact (encode_ok).mpr (((ensures_decode sha256 bytes identity).ok h).history hhistory)
  · intro bytes
    constructor
    · intro ⟨s, h, hhistory⟩
      have hdecoded := (ensures_decode sha256 bytes identity).ok h
      have hvalid := hdecoded.valid
      rwa [hdecoded.native hhistory, List.take_length] at hvalid
    · intro h
      exact ⟨_, decode_of_native h, rfl⟩
  · intro bytes
    have hvalidate := EmucapStateFile.ensures_validate bytes
    have hdecode := ensures_decode sha256 bytes identity
    refine ⟨fun e h => hvalidate.error h, fun h => (hvalidate.ok h).tiled, fun e h => hdecode.error h, ?_⟩
    intro s h
    exact (validate_valid (hdecode.ok h).valid).tiled

/-! ## A container -/

def emptyState : List UInt8 := utf8 "MDFNSVST" ++ List.replicate 8 0 ++ littleEndian 4 0x900 ++ littleEndian 4 32 ++
  List.replicate 8 0

def zeroDigest : List UInt8 → Bytes32 := fun _ => ⟨List.replicate 32 0, List.length_replicate⟩

theorem snapshot_containers_empty :
    ∃ bytes, encode zeroDigest emptyState (zeroDigest []) ⟨[1], [2], [3], []⟩ = .ok bytes ∧
      decode zeroDigest bytes (zeroDigest []) = .ok ⟨32, true, ⟨[1], [2], [3], []⟩⟩ ∧
      encode zeroDigest (bytes.take 32) (zeroDigest []) ⟨[1], [2], [3], []⟩ = .ok bytes := by
  obtain ⟨bytes, hbytes⟩ : ∃ bytes, encode zeroDigest emptyState (zeroDigest []) ⟨[1], [2], [3], []⟩ = .ok bytes :=
    ⟨sealed zeroDigest (emptyState ++ header (zeroDigest []) ⟨[1], [2], [3], []⟩ ++ [1, 2, 3]), by decide +kernel⟩
  have hdecoded := ((snapshot_containers zeroDigest (zeroDigest [])).1 _ _ _ hbytes).1
  refine ⟨bytes, hbytes, hdecoded, ?_⟩
  exact (snapshot_containers zeroDigest (zeroDigest [])).2.1 _ _ hdecoded rfl

end Emucap.Mednafen.EmucapSnapshot
