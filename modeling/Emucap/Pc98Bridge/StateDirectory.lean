import Emucap.Pc98Bridge.StateArchive

/-!
# What the metadata view holds

The view of an accepted archive is the records of the last end record, in order, each with its offset moved. The walk
keeps the rewritten records before the cursor, and no step of it panics.
-/

namespace Emucap.Pc98Bridge

open Emucap.Lib

def Answer (e : ArchiveError) : Prop := e ≠ .panicked

/-! ## Steps that may panic -/

section steps
variable {bytes : List UInt8} {first last offset width : ℕ}

theorem slice_eq (h : first ≤ last ∧ last ≤ bytes.length) :
    slice bytes first last = .ok (between bytes first last) := by
  rw [slice, require, if_pos h]
  rfl

theorem readField_eq (h : offset + width ≤ bytes.length) :
    readField bytes offset width = .ok (field bytes offset width) := by
  rw [readField, slice_eq ⟨Nat.le_add_right _ _, h⟩]
  rfl

theorem copyFromSlice_eq {source : List UInt8} (h : last ≤ bytes.length) (hfirst : first ≤ last)
    (hsource : source.length = last - first) :
    copyFromSlice bytes first last source = .ok (overwrite bytes first source) := by
  rw [copyFromSlice, require, if_pos ⟨hfirst, h, hsource⟩]
  rfl

theorem subtract_eq {a b : ℕ} (h : b ≤ a) : subtract a b = .ok (a - b) := by
  rw [subtract, checkedSub, if_pos h]
  rfl

theorem ensures_readAt {content : List UInt8} {offset n : ℕ} :
    Ensures Answer (fun bytes => offset + n ≤ content.length ∧ bytes = between content offset (offset + n))
      (readAt content offset n) :=
  ensures_require_bind (fun _ => nofun) fun h => ⟨h, rfl⟩

end steps

/-! ## The end record -/

/-- An end record begins at the offset, and its comment reaches the end of the file. -/
def EndsAt (bytes : List UInt8) (offset : ℕ) : Prop :=
  offset + eocdLen ≤ bytes.length ∧ between bytes offset (offset + 4) = eocdSignature ∧
    offset + (eocdLen + field bytes (offset + 20) 2) = bytes.length

instance (bytes : List UInt8) (offset : ℕ) : Decidable (EndsAt bytes offset) :=
  inferInstanceAs (Decidable (_ ∧ _ ∧ _))

theorem isEocd_eq {tail : List UInt8} {offset : ℕ} (h : offset + eocdLen ≤ tail.length)
    (hsmall : tail.length < 2 ^ 63) :
    isEocd tail offset = .ok (decide (EndsAt tail offset)) := by
  have hlen : eocdLen = 22 := rfl
  rw [isEocd, slice_eq (by omega), ok_bind]
  by_cases hsignature : between tail offset (offset + 4) = eocdSignature
  · have hlt : field tail (offset + 20) 2 < 256 ^ 2 := field_lt (by omega)
    rw [if_neg (by simpa using hsignature), readField_eq (by omega), ok_bind,
      show checkedAdd offset (eocdLen + field tail (offset + 20) 2) = some _ from if_pos (by omega)]
    simp [pure, Except.pure, EndsAt, h, hsignature]
  · rw [if_pos (by simpa using hsignature)]
    simp [pure, Except.pure, EndsAt, hsignature]

/-- The search goes backwards, so it finds the last end record. -/
theorem findEocd_eq {tail : List UInt8} {n : ℕ} (h : n + eocdLen ≤ tail.length) (hsmall : tail.length < 2 ^ 63) :
    Ensures Answer (fun found => ∀ offset, found = some offset →
      EndsAt tail offset ∧ ∀ later, offset < later → later ≤ n → ¬ EndsAt tail later) (findEocd tail n) := by
  induction n with
  | zero =>
    rw [findEocd, isEocd_eq h hsmall, ok_bind]
    by_cases hends : EndsAt tail 0
    · simp only [hends, decide_true, if_true]
      intro offset hoffset
      obtain rfl := Option.some.inj hoffset
      exact ⟨hends, fun later hlater hle => by omega⟩
    · simp only [hends, decide_false, Bool.false_eq_true, if_false]
      exact nofun
  | succ n ih =>
    rw [findEocd, isEocd_eq h hsmall, ok_bind]
    by_cases hends : EndsAt tail (n + 1)
    · rw [decide_eq_true hends, if_pos rfl]
      intro offset hoffset
      obtain rfl := Option.some.inj hoffset
      exact ⟨hends, fun later hlater hle => by omega⟩
    · rw [decide_eq_false hends, if_neg (by simp)]
      refine (ih (by omega)).mono fun found hfound offset hoffset => ?_
      obtain ⟨hat, hlast⟩ := hfound offset hoffset
      refine ⟨hat, fun later hlater hle => ?_⟩
      by_cases hnew : later = n + 1
      · rwa [hnew]
      · exact hlast later hlater (by omega)

theorem endsAt_drop {content : List UInt8} {start offset : ℕ} (hstart : start ≤ content.length) :
    EndsAt (content.drop start) offset ↔ EndsAt content (start + offset) := by
  have hlen : eocdLen = 22 := rfl
  rw [EndsAt, EndsAt, between_drop, field_drop, List.length_drop]
  simp only [Nat.add_assoc]
  constructor
  · rintro ⟨hfits, hsignature, hcomment⟩
    exact ⟨by omega, hsignature, by omega⟩
  · rintro ⟨hfits, hsignature, hcomment⟩
    exact ⟨by omega, hsignature, by omega⟩

theorem EndsAt.in_tail {content : List UInt8} {offset : ℕ} (h : EndsAt content offset) :
    content.length - min content.length (eocdLen + maxCommentLen) ≤ offset := by
  obtain ⟨hfits, -, hcomment⟩ := h
  have hlen : eocdLen = 22 := rfl
  have hmax : maxCommentLen = 65535 := rfl
  have hlt : field content (offset + 20) 2 < 256 ^ 2 := field_lt (by omega)
  omega

/-- The end record that is read is the last one of the file, it is within the limits, and it speaks of neither other
disks nor wider numbers. -/
structure EocdOf (content : List UInt8) (eocd : Eocd) : Prop where
  ends : EndsAt content eocd.offset
  last : ∀ later, eocd.offset < later → ¬ EndsAt content later
  disk : field content (eocd.offset + 4) 2 = 0
  centralDirectoryDisk : field content (eocd.offset + 6) 2 = 0
  entriesOnDisk : field content (eocd.offset + 8) 2 = eocd.entries
  entries : field content (eocd.offset + 10) 2 = eocd.entries
  centralDirectorySize : field content (eocd.offset + 12) 4 = eocd.centralDirectorySize
  centralDirectoryOffset : field content (eocd.offset + 16) 4 = eocd.centralDirectoryOffset
  narrow : eocd.entries ≠ 2 ^ 16 - 1 ∧ eocd.centralDirectorySize ≠ 2 ^ 32 - 1 ∧
    eocd.centralDirectoryOffset ≠ 2 ^ 32 - 1
  maxEntries : eocd.entries ≤ maxStateArchiveEntries
  maxSize : eocd.centralDirectorySize ≤ maxStateCentralDirectoryBytes
  maxBytes : content.length ≤ maxStateArchiveBytes

theorem ensures_readEocd (content : List UInt8) : Ensures Answer (EocdOf content) (readEocd content) := by
  have hlen : eocdLen = 22 := rfl
  have hmaxComment : maxCommentLen = 65535 := rfl
  have hmaxBytes : maxStateArchiveBytes = 1073741824 := rfl
  refine ensures_require_bind (fun _ h => by cases h) fun hbytes => ?_
  refine ensures_require_bind (fun _ h => by cases h) fun henough => ?_
  generalize htailLen : min content.length (eocdLen + maxCommentLen) = tailLen
  have hsmallTail : eocdLen ≤ tailLen ∧ tailLen ≤ content.length ∧ tailLen ≤ eocdLen + maxCommentLen := by omega
  dsimp only
  rw [subtract_eq hsmallTail.2.1, ok_bind]
  refine (ensures_readAt).bind fun tail hread => ?_
  obtain ⟨hfits, htail⟩ := hread
  have htail : tail = content.drop (content.length - tailLen) := by
    rw [htail, between, Nat.add_sub_cancel_left]
    exact List.take_of_length_le (by rw [List.length_drop]; omega)
  have htailLength : tail.length = tailLen := by
    rw [htail, List.length_drop]
    omega
  rw [subtract_eq hsmallTail.1, ok_bind]
  refine (findEocd_eq (by omega) (by omega)).bind fun found hfound => ?_
  refine ensures_orError_bind (fun _ h => by cases h) fun relative hrelative => ?_
  obtain ⟨hends, hlast⟩ := hfound relative hrelative
  have hroom : relative + eocdLen ≤ tail.length := hends.1
  rw [slice_eq ⟨Nat.le_add_right _ _, hroom⟩, ok_bind]
  have hread : ∀ {offset width}, offset + width ≤ eocdLen →
      readField (between tail relative (relative + eocdLen)) offset width =
        .ok (field content (content.length - tailLen + relative + offset) width) := by
    intro offset width h
    have hbetween : between tail relative (relative + eocdLen) = (tail.drop relative).take eocdLen := by
      rw [between, Nat.add_sub_cancel_left]
    rw [readField_eq (by rw [length_between hroom]; omega), hbetween, field_take _ h, htail, List.drop_drop, field_drop]
  rw [hread (by omega), ok_bind, hread (by omega), ok_bind, hread (by omega), ok_bind, hread (by omega), ok_bind,
    hread (by omega), ok_bind, hread (by omega), ok_bind]
  refine ensures_require_bind (fun _ h => by cases h) fun hsizes => ?_
  obtain ⟨_, _, _, hentries, hsize, hoffset⟩ := hsizes
  refine ensures_require_bind (fun _ h => by cases h) fun hdisks => ?_
  obtain ⟨hdisk, hcentral, hsame⟩ := hdisks
  refine ensures_require_bind (fun _ h => by cases h) fun hmaxEntries => ?_
  refine ensures_require_bind (fun _ h => by cases h) fun hmaxSize => ?_
  refine ensures_require_bind (fun _ h => by cases h) fun _ => ?_
  rw [show checkedAdd (content.length - tailLen) relative = some (content.length - tailLen + relative) from
    if_pos (by omega)]
  have hshift : ∀ offset, EndsAt tail offset ↔ EndsAt content (content.length - tailLen + offset) := by
    intro offset
    rw [htail, endsAt_drop (by omega)]
  refine ⟨(hshift relative).mp hends, ?_, hdisk, hcentral, hsame, rfl, rfl, rfl, ⟨hentries, hsize, hoffset⟩,
    hmaxEntries, hmaxSize, hbytes⟩
  intro later hlater hat
  have hin := hat.in_tail
  rw [htailLen] at hin
  have hlater' : later = content.length - tailLen + (later - (content.length - tailLen)) := by omega
  rw [hlater', ← hshift] at hat
  have hroom' := hat.1
  exact hlast (later - (content.length - tailLen)) (by simp only at hlater; omega) (by omega) hat

structure PlacedAt (content : List UInt8) (eocd : Eocd) (placement : Placement) : Prop where
  ends : placement.archiveOffset + (eocd.centralDirectoryOffset + eocd.centralDirectorySize) = eocd.offset
  directory : placement.physicalDirectoryOffset = placement.archiveOffset + eocd.centralDirectoryOffset

theorem ensures_place {content : List UInt8} {eocd : Eocd} :
    Ensures Answer (PlacedAt content eocd) (place content eocd) := by
  refine ensures_orError_bind (fun _ => nofun) fun last hlast => ?_
  obtain ⟨-, rfl⟩ := checkedAdd_eq_some.mp hlast
  refine ensures_require_bind (fun _ => nofun) fun ⟨hbefore, _⟩ => ?_
  rw [subtract_eq hbefore, ok_bind]
  refine ensures_orError_bind (fun _ => nofun) fun physical hphysical => ?_
  obtain ⟨-, rfl⟩ := checkedAdd_eq_some.mp hphysical
  exact ⟨by simp only; omega, rfl⟩

/-! ## The records -/

/-- A record of the directory: the fields before the offset of the local header, that offset, and the texts. -/
structure DirectoryRecord where
  fixed : List UInt8
  localHeaderOffset : ℕ
  name : List UInt8
  extra : List UInt8
  comment : List UInt8

namespace DirectoryRecord

def encode (record : DirectoryRecord) : List UInt8 :=
  record.fixed ++ littleEndian 4 record.localHeaderOffset ++ record.name ++ record.extra ++ record.comment

/-- The record with its offset counted from a place `n` bytes before. Nothing else of it changes. -/
def shift (n : ℕ) (record : DirectoryRecord) : DirectoryRecord :=
  { record with localHeaderOffset := n + record.localHeaderOffset }

/-- A record that is accepted: its lengths are those of its texts, it has no extra field, and it speaks of neither
other disks, wider numbers nor encryption. -/
structure Plain (record : DirectoryRecord) : Prop where
  length : record.fixed.length = 42
  signature : record.fixed.take 4 = centralDirectorySignature
  nameLen : field record.fixed 28 2 = record.name.length
  extraLen : field record.fixed 30 2 = record.extra.length
  commentLen : field record.fixed 32 2 = record.comment.length
  offset : record.localHeaderOffset < 2 ^ 32
  diskStart : field record.fixed 34 2 = 0
  narrow : field record.fixed 20 4 ≠ 2 ^ 32 - 1 ∧ field record.fixed 24 4 ≠ 2 ^ 32 - 1 ∧
    record.localHeaderOffset ≠ 2 ^ 32 - 1
  extra : record.extra = []
  flags : field record.fixed 8 2 % 2 = 0
  method : field record.fixed 10 2 ≠ 99

/-- The local header of the record lies before the directory. -/
structure Before (placement : Placement) (record : DirectoryRecord) : Prop where
  physical : placement.archiveOffset + record.localHeaderOffset < placement.physicalDirectoryOffset
  fits : placement.archiveOffset + record.localHeaderOffset < 2 ^ 32

end DirectoryRecord

/-- The record that begins a directory, whose two lengths are known. -/
def DirectoryRecord.decode (rest : List UInt8) (nameLen commentLen : ℕ) : DirectoryRecord :=
  ⟨rest.take 42, field rest 42 4, between rest 46 (46 + nameLen), [],
    between rest (46 + nameLen) (46 + nameLen + commentLen)⟩

theorem DirectoryRecord.encode_decode {rest : List UInt8} {nameLen commentLen : ℕ}
    (h : 46 + nameLen + commentLen ≤ rest.length) :
    (decode rest nameLen commentLen).encode = rest.take (46 + nameLen + commentLen) := by
  rw [encode, decode, List.append_nil, littleEndian_field rest (by omega), take_append_between rest (by omega),
    take_append_between rest (by omega), take_append_between rest (by omega)]

theorem DirectoryRecord.plain_decode {rest : List UInt8}
    (hroom : 46 + field rest 28 2 + field rest 32 2 ≤ rest.length)
    (hsignature : between (rest.take 46) 0 4 = centralDirectorySignature) (hdisk : field rest 34 2 = 0)
    (hnarrow : field rest 20 4 ≠ 2 ^ 32 - 1 ∧ field rest 24 4 ≠ 2 ^ 32 - 1 ∧ field rest 42 4 ≠ 2 ^ 32 - 1)
    (hextra : field rest 30 2 = 0) (hflags : field rest 8 2 % 2 = 0) (hmethod : field rest 10 2 ≠ 99) :
    (decode rest (field rest 28 2) (field rest 32 2)).Plain := by
  have hfixed : ∀ {offset width}, offset + width ≤ 42 → field (rest.take 42) offset width = field rest offset width :=
    fun h => field_take rest h
  have hname : field (rest.take 42) 28 2 = (between rest 46 (46 + field rest 28 2)).length := by
    rw [hfixed (by omega), length_between (by omega)]
    omega
  have hcomment : field (rest.take 42) 32 2 =
      (between rest (46 + field rest 28 2) (46 + field rest 28 2 + field rest 32 2)).length := by
    rw [hfixed (by omega), length_between hroom]
    omega
  exact {
    length := by rw [decode, List.length_take]; omega
    signature := by
      rw [between_take rest (by omega), between_zero] at hsignature
      rw [decode, List.take_take]
      exact hsignature
    nameLen := hname
    extraLen := (hfixed (by omega)).trans hextra
    commentLen := hcomment
    offset := field_lt (by omega)
    diskStart := (hfixed (by omega)).trans hdisk
    narrow := by
      rw [decode, hfixed (by omega), hfixed (by omega)]
      exact hnarrow
    extra := rfl
    flags := by rw [decode, hfixed (by omega), hflags]
    method := by
      rw [decode, hfixed (by omega)]
      exact hmethod }

theorem overwrite_offset {done rest : List UInt8} {nameLen commentLen n : ℕ} :
    overwrite (done ++ rest) (done.length + 42) (littleEndian 4 (n + field rest 42 4)) =
      done ++ ((DirectoryRecord.decode rest nameLen commentLen).shift n).encode ++
        rest.drop (46 + nameLen + commentLen) := by
  have htexts : between rest 46 (46 + nameLen) ++ (between rest (46 + nameLen) (46 + nameLen + commentLen) ++
      rest.drop (46 + nameLen + commentLen)) = rest.drop 46 := by
    have hwhole := List.take_append_drop (46 + nameLen + commentLen) rest
    rw [← take_append_between rest (Nat.le_add_right (46 + nameLen) commentLen),
      ← take_append_between rest (Nat.le_add_right 46 nameLen), List.append_assoc, List.append_assoc] at hwhole
    have hsplit := hwhole.trans (List.take_append_drop 46 rest).symm
    exact List.append_cancel_left hsplit
  have hdrop : (done ++ rest).drop (done.length + 42 + 4) = rest.drop 46 := by
    rw [Nat.add_assoc, ← List.drop_drop, List.drop_left]
  have htake : (done ++ rest).take (done.length + 42) = done ++ rest.take 42 := by
    rw [List.take_length_add_append]
  rw [overwrite, length_littleEndian, hdrop, htake]
  simp only [DirectoryRecord.encode, DirectoryRecord.shift, DirectoryRecord.decode, List.append_nil, List.append_assoc,
    htexts]

structure Reads (placement : Placement) (done rest : List UInt8) (walk : Walk) (record : DirectoryRecord)
    (more : List UInt8) : Prop where
  plain : record.Plain
  before : record.Before placement
  split : rest = record.encode ++ more
  cursor : walk.cursor = (done ++ (record.shift placement.archiveOffset).encode).length
  directory : walk.directory = done ++ (record.shift placement.archiveOffset).encode ++ more

theorem ensures_readEntry {placement : Placement} {done rest : List UInt8} :
    Ensures Answer (fun walk => ∃ record more, Reads placement done rest walk record more)
      (readEntry placement ⟨done.length, done ++ rest⟩) := by
  have hheader : centralDirectoryHeaderLen = 46 := rfl
  have hlength : (done ++ rest).length = done.length + rest.length := List.length_append
  refine ensures_orError_bind (fun _ h => by cases h) fun headerEnd hend => ?_
  obtain ⟨hsum, hfits⟩ := Option.filter_eq_some_iff.mp hend
  obtain ⟨-, rfl⟩ := checkedAdd_eq_some.mp hsum
  have hfits : done.length + 46 ≤ (done ++ rest).length := of_decide_eq_true hfits
  have hrest : 46 ≤ rest.length := by omega
  have hslice : between (done ++ rest) done.length (done.length + 46) = rest.take 46 := by
    rw [between, List.drop_left, Nat.add_sub_cancel_left]
  have hwidth : (rest.take 46).length = 46 := by
    rw [List.length_take]
    omega
  have hread : ∀ {offset width}, offset + width ≤ 46 →
      readField (rest.take 46) offset width = .ok (field rest offset width) := by
    intro offset width h
    rw [readField_eq (by omega), field_take rest h]
  have hfixed : ∀ {offset width}, offset + width ≤ 42 → field (rest.take 42) offset width = field rest offset width :=
    fun h => field_take rest h
  dsimp only
  rw [hheader, slice_eq ⟨Nat.le_add_right _ _, hfits⟩, ok_bind, hslice, slice_eq ⟨Nat.zero_le _, by omega⟩, ok_bind]
  refine ensures_require_bind (fun _ h => by cases h) fun hsignature => ?_
  rw [hread (by omega), ok_bind, hread (by omega), ok_bind, hread (by omega), ok_bind, hread (by omega), ok_bind,
    hread (by omega), ok_bind, hread (by omega), ok_bind, hread (by omega), ok_bind, hread (by omega), ok_bind,
    hread (by omega), ok_bind]
  refine ensures_require_bind (fun _ h => by cases h) fun hdisk => ?_
  refine ensures_require_bind (fun _ h => by cases h) fun hnarrow => ?_
  refine ensures_require_bind (fun _ h => by cases h) fun hextra => ?_
  refine ensures_require_bind (fun _ h => by cases h) fun hplain => ?_
  obtain ⟨hflags, hmethod⟩ := hplain
  refine ensures_orError_bind (fun _ h => by cases h) fun physical hphysical => ?_
  obtain ⟨hphysical, hu32⟩ := Option.filter_eq_some_iff.mp hphysical
  obtain ⟨hphysical, hbefore⟩ := Option.filter_eq_some_iff.mp hphysical
  obtain ⟨-, rfl⟩ := checkedAdd_eq_some.mp hphysical
  have hbefore : placement.archiveOffset + field rest 42 4 < placement.physicalDirectoryOffset :=
    of_decide_eq_true hbefore
  have hu32 : placement.archiveOffset + field rest 42 4 < 2 ^ 32 := of_decide_eq_true hu32
  rw [copyFromSlice_eq hfits (by omega) (by rw [length_littleEndian]; omega), ok_bind]
  refine ensures_orError_bind (fun _ h => by cases h) fun cursor hcursor => ?_
  obtain ⟨hcursor, hroom⟩ := Option.filter_eq_some_iff.mp hcursor
  obtain ⟨nameEnd, hnameEnd, hcursor⟩ := Option.bind_eq_some_iff.mp hcursor
  obtain ⟨extraEnd, hextraEnd, hcommentEnd⟩ := Option.bind_eq_some_iff.mp hcursor
  obtain ⟨-, rfl⟩ := checkedAdd_eq_some.mp hnameEnd
  obtain ⟨-, rfl⟩ := checkedAdd_eq_some.mp hextraEnd
  obtain ⟨-, rfl⟩ := checkedAdd_eq_some.mp hcommentEnd
  have hroom := of_decide_eq_true hroom
  rw [length_overwrite (by rw [length_littleEndian]; omega), hextra, hlength] at hroom
  have hroom : 46 + field rest 28 2 + field rest 32 2 ≤ rest.length := by omega
  have hdirectory := @overwrite_offset done rest (field rest 28 2) (field rest 32 2) placement.archiveOffset
  refine ⟨.decode rest (field rest 28 2) (field rest 32 2), rest.drop (46 + field rest 28 2 + field rest 32 2), ?_⟩
  refine ⟨DirectoryRecord.plain_decode hroom hsignature hdisk hnarrow hextra hflags hmethod, ⟨hbefore, hu32⟩, ?_, ?_,
    hdirectory⟩
  · rw [DirectoryRecord.encode_decode hroom, List.take_append_drop]
  · have hcount := congrArg List.length hdirectory
    rw [length_overwrite (by rw [length_littleEndian]; omega), hlength, List.length_append, List.length_drop] at hcount
    simp only
    omega

structure ReadsAll (placement : Placement) (done rest : List UInt8) (walk : Walk) (records : List DirectoryRecord)
    (more : List UInt8) : Prop where
  plain : ∀ record ∈ records, record.Plain ∧ record.Before placement
  split : rest = records.flatMap DirectoryRecord.encode ++ more
  cursor : walk.cursor =
    (done ++ records.flatMap fun record => (record.shift placement.archiveOffset).encode).length
  directory : walk.directory =
    done ++ (records.flatMap fun record => (record.shift placement.archiveOffset).encode) ++ more

theorem ReadsAll.cons {placement : Placement} {done rest more last : List UInt8} {first walk : Walk}
    {record : DirectoryRecord} {records : List DirectoryRecord} (hrecord : Reads placement done rest first record more)
    (hrecords : ReadsAll placement (done ++ (record.shift placement.archiveOffset).encode) more walk records last) :
    ReadsAll placement done rest walk (record :: records) last where
  plain := by
    intro other hother
    by_cases hsame : other = record
    · rw [hsame]
      exact ⟨hrecord.plain, hrecord.before⟩
    · exact hrecords.plain other (List.mem_of_ne_of_mem hsame hother)
  split := by rw [hrecord.split, hrecords.split, List.flatMap_cons, List.append_assoc]
  cursor := by rw [hrecords.cursor, List.flatMap_cons, List.append_assoc]
  directory := by rw [hrecords.directory, List.flatMap_cons, List.append_assoc done]

theorem ensures_readEntries {placement : Placement} {entries : ℕ} {done rest : List UInt8} :
    Ensures Answer (fun walk => ∃ records more, records.length = entries ∧
        ReadsAll placement done rest walk records more)
      (readEntries placement entries ⟨done.length, done ++ rest⟩) := by
  induction entries generalizing done rest with
  | zero => exact ⟨[], rest, rfl, ⟨nofun, rfl, by simp, by simp⟩⟩
  | succ entries ih =>
    refine (ensures_readEntry).bind fun first ⟨record, more, hrecord⟩ => ?_
    obtain ⟨cursor, directory⟩ := first
    obtain rfl : cursor = _ := hrecord.cursor
    obtain rfl : directory = _ := hrecord.directory
    refine ih.mono fun walk ⟨records, last, hcount, hrecords⟩ => ?_
    exact ⟨record :: records, last, by rw [List.length_cons, hcount], ReadsAll.cons hrecord hrecords⟩

/-! ## The view -/

/-- The view of a file: its last end record and the records of the directory that lies right before it. -/
structure Selected (content view : List UInt8) (eocd : Eocd) (placement : Placement) (records : List DirectoryRecord) :
    Prop where
  selected : EocdOf content eocd
  placed : PlacedAt content eocd placement
  entries : records.length = eocd.entries
  directory : between content placement.physicalDirectoryOffset eocd.offset = records.flatMap DirectoryRecord.encode
  plain : ∀ record ∈ records, record.Plain ∧ record.Before placement
  locator : 20 ≤ eocd.offset → between content (eocd.offset - 20) (eocd.offset - 16) ≠ zip64LocatorSignature
  view : view = (records.flatMap fun record => (record.shift placement.archiveOffset).encode) ++
    viewEnd eocd.entries eocd.centralDirectorySize

theorem ensures_checkLocator {content : List UInt8} {eocdOffset : ℕ} :
    Ensures Answer (fun _ => 20 ≤ eocdOffset →
        between content (eocdOffset - 20) (eocdOffset - 16) ≠ zip64LocatorSignature)
      (checkLocator content eocdOffset) := by
  by_cases hroom : 20 ≤ eocdOffset
  · rw [checkLocator, if_pos hroom]
    refine (ensures_readAt).bind fun signature ⟨_, hsignature⟩ => ?_
    refine (ensures_require fun _ => nofun).mono fun _ hne _ => ?_
    rwa [hsignature, show eocdOffset - 20 + 4 = eocdOffset - 16 by omega] at hne
  · rw [checkLocator, if_neg hroom]
    exact fun h => absurd h hroom

theorem ensures_metadataView (content : List UInt8) :
    Ensures Answer (fun view => ∃ eocd placement records, Selected content view eocd placement records)
      (metadataView content) := by
  refine (ensures_readEocd content).bind fun eocd heocd => ?_
  refine (ensures_place).bind fun placement hplaced => ?_
  refine (ensures_readAt).bind fun directory ⟨_, hdirectory⟩ => ?_
  refine (@ensures_readEntries placement eocd.entries [] directory).bind
    fun walk ⟨records, more, hcount, hrecords⟩ => ?_
  refine ensures_require_bind (fun _ => nofun) fun hconsumed => ?_
  refine (ensures_checkLocator).bind fun _ hlocator => ?_
  have hmore : more = [] := by
    have hlength := congrArg List.length hrecords.directory
    rw [List.length_append, ← hrecords.cursor] at hlength
    exact List.eq_nil_of_length_eq_zero (by omega)
  have hends := hplaced.ends
  have hat := hplaced.directory
  refine ⟨eocd, placement, records, heocd, hplaced, hcount, ?_, hrecords.plain, hlocator, ?_⟩
  · rw [show eocd.offset = placement.physicalDirectoryOffset + eocd.centralDirectorySize by omega, ← hdirectory,
      hrecords.split, hmore, List.append_nil]
  · rw [hrecords.directory, hmore, List.append_nil, List.nil_append]

/-- Opening a state archive selects the directory of its last end record. It does not panic, and what it hands to the
archive parser is the records of that directory with the offsets counted from the start of the file. -/
theorem metadataView_selects (content : List UInt8) :
    metadataView content ≠ .error .panicked ∧
      ∀ view, metadataView content = .ok view →
        ∃ eocd placement records, Selected content view eocd placement records := by
  have hensures := ensures_metadataView content
  exact ⟨fun h => hensures.error h rfl, fun view h => hensures.ok h⟩

def namedRecord (offset : ℕ) : DirectoryRecord where
  fixed := centralDirectorySignature ++ List.replicate 24 0 ++ littleEndian 2 1 ++ List.replicate 12 0
  localHeaderOffset := offset
  name := [0x61]
  extra := []
  comment := []

/-- A byte stands before this archive, so its one offset moves by one. -/
theorem metadataView_selects_sample :
    ∃ eocd placement records,
      Selected
        ([0x4d, 0] ++ (namedRecord 0).encode ++
          (eocdSignature ++ littleEndian 4 0 ++ littleEndian 2 1 ++ littleEndian 2 1 ++ littleEndian 4 47 ++
            littleEndian 4 1 ++ littleEndian 2 0))
        ((namedRecord 1).encode ++ viewEnd 1 47) eocd placement records :=
  (metadataView_selects _).2 _ (by decide +kernel)

end Emucap.Pc98Bridge
