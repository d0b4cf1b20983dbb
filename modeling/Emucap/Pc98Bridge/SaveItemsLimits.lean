import Emucap.Pc98Bridge.SaveItemsExtraction

/-!
# The limits of the extraction

An archive that is complete for an accepted manifest can only fail for a limit where the manifest itself is too large,
or where it takes the sum of what is written over the limit that the lines alone keep to.
-/

namespace Emucap.Pc98Bridge

open Emucap.Lib

inductive LimitError : ArchiveError → Prop
  | members : LimitError (badParams s!"PC-98 save item count exceeds {maxSaveItemMembers}")
  | manifest : LimitError (badParams s!"PC-98 save item manifest exceeds {maxSaveItemManifestBytes} bytes")
  | entries : LimitError (badParams s!"PC-98 save item manifest exceeds {maxSaveItemMembers - 1} entries")
  | line (lineNumber : ℕ) :
    LimitError (badParams s!"PC-98 save item manifest line {lineNumber} exceeds {maxSaveItemMemberBytes} bytes")
  | lines : LimitError (badParams s!"PC-98 save item manifest bytes exceed {maxSaveItemTotalBytes}")
  | linesOverflow : LimitError (badParams "PC-98 save item manifest byte count overflow")
  | member (name : String) : LimitError (badParams s!"PC-98 save item exceeds {maxSaveItemMemberBytes} bytes: {name}")
  | total : LimitError (badParams s!"PC-98 save item bytes exceed {maxSaveItemTotalBytes}")
  | overflow : LimitError (badParams "PC-98 save item byte count overflow")

theorem LimitError.head {e : ArchiveError} (h : LimitError e) :
    ∃ message, e = badParams message ∧ message.toList.head? = some 'P' := by
  cases h
  all_goals exact ⟨_, rfl, by simp [toString]⟩

/-- The archive has a manifest of these bytes, which is accepted, and for every entry of it a member of the declared
length, and nothing else below the directory. -/
structure Complete (archive : List Member) (bytes : List UInt8) (entries : List SaveItemManifestEntry) : Prop where
  accepted : parseSaveItemManifest bytes = .ok entries
  names : (saveItemNames archive).Perm (approvedNames entries)
  readable : ∀ member ∈ archive, member.name ∈ approvedNames entries →
    member.opens ∧ member.sound ∧ member.size = member.content.length
  manifest : ∀ member ∈ archive, member.name = saveItemsManifest → member.content = bytes
  items : ∀ member ∈ archive, ∀ entry ∈ entries, member.name = memberName entry.filename →
    member.content.length = entry.bytesLen

/-- The manifest is not too large, and what is written is not, the manifest included. -/
def WithinLimits (bytes : List UInt8) (entries : List SaveItemManifestEntry) : Prop :=
  bytes.length ≤ maxSaveItemManifestBytes ∧
    bytes.length + (entries.map SaveItemManifestEntry.bytesLen).sum ≤ maxSaveItemTotalBytes

instance (bytes : List UInt8) (entries : List SaveItemManifestEntry) : Decidable (WithinLimits bytes entries) :=
  inferInstanceAs (Decidable (_ ∧ _))

def Target.Free (target : Target) : Prop :=
  target.makesDir ∧ (∀ name, target.makesFile name) ∧ ∀ name, target.writesFile name

def NamesDirectory (manifest : Json) : Prop :=
  ∃ saveItems, (manifest.get "save_items").bind Json.asObject = some saveItems ∧
    saveItemsDirectory saveItems = saveItemsDir.toList

/-- How the extraction of a complete archive can fail: for a limit that is exceeded, for the file system, or for the
directory that the state names. -/
def Failure (target : Target) (manifest : Json) (bytes : List UInt8) (entries : List SaveItemManifestEntry)
    (e : ArchiveError) : Prop :=
  (LimitError e ∧ ¬ WithinLimits bytes entries) ∨ (e = .io ∧ ¬ target.Free) ∨
    ((∃ directory : String, e = badParams s!"unsupported PC-98 save item directory: {directory}") ∧
      ¬ NamesDirectory manifest)

theorem not_limitError_io : ¬ LimitError .io := nofun

theorem not_limitError_directory (directory : String) :
    ¬ LimitError (badParams s!"unsupported PC-98 save item directory: {directory}") := by
  intro h
  obtain ⟨message, heq, hhead⟩ := h.head
  rw [← ArchiveError.badParams.inj heq] at hhead
  simp [toString] at hhead

/-! ## The extraction of a complete archive -/

section complete
variable {target : Target} {archive : List Member} {manifest : Json} {bytes : List UInt8}
  {entries : List SaveItemManifestEntry}

theorem checkNames_eq_ok {seen names : List String} (h : ((seen ++ names).map toAsciiLowercase).Nodup) :
    checkNames seen names = .ok () := by
  induction names generalizing seen with
  | nil => rfl
  | cons name rest ih =>
    have hnew : toAsciiLowercase name ∉ seen.map toAsciiLowercase := by
      rw [List.map_append, List.map_cons] at h
      exact fun hmem => List.disjoint_of_nodup_append h hmem List.mem_cons_self
    have hrest : checkNames (seen ++ [name]) rest = .ok () := by
      apply ih
      rwa [List.append_assoc, List.singleton_append]
    rw [checkNames, require, if_pos fun hmem => hnew (List.mem_map_of_mem hmem), ok_bind, require, if_pos hnew, ok_bind,
      hrest]

theorem toAsciiLowercase_memberName_injective {a b : String}
    (h : toAsciiLowercase (memberName a) = toAsciiLowercase (memberName b)) :
    toAsciiLowercase a = toAsciiLowercase b := by
  simp only [toAsciiLowercase, memberName, String.toList_append, List.map_append] at h ⊢
  exact List.append_cancel_left h

theorem manifest_mem_approvedNames : saveItemsManifest ∈ approvedNames entries := List.mem_cons_self

theorem entry_mem_approvedNames {entry : SaveItemManifestEntry} (hentry : entry ∈ entries) :
    memberName entry.filename ∈ approvedNames entries :=
  List.mem_cons_of_mem _ (List.mem_map_of_mem hentry)

namespace Complete
variable (h : Complete archive bytes entries)
include h

theorem declared : ∃ lines, DeclaredBy lines entries := by
  obtain ⟨text, -, hdeclared⟩ := ensures_parseSaveItemManifest.ok h.accepted
  exact ⟨_, hdeclared⟩

theorem checkNames_eq : checkNames [] (saveItemNames archive) = .ok () := by
  obtain ⟨lines, hdeclared⟩ := h.declared
  apply checkNames_eq_ok
  rw [List.nil_append, (h.names.map _).nodup_iff, approvedNames_eq, List.map_map]
  refine List.Nodup.map_on (fun a ha b hb hsame => ?_) (hdeclared.distinct_names.of_map _)
  exact List.inj_on_of_nodup_map hdeclared.distinct_names ha hb (toAsciiLowercase_memberName_injective hsame)

theorem byName_eq {name : String} (hname : name ∈ approvedNames entries) :
    ∃ member, member ∈ archive ∧ member.name = name ∧ archive.find? (·.name = name) = some member ∧
      byName archive name = .ok member ∧ member.sound ∧ member.size = member.content.length := by
  have hlisted : name ∈ saveItemNames archive := h.names.mem_iff.mpr hname
  obtain ⟨other, hother, hsame⟩ := List.mem_map.mp (List.mem_of_mem_filter hlisted)
  obtain ⟨member, hmember⟩ : ∃ member, archive.find? (·.name = name) = some member := by
    rw [← Option.isSome_iff_exists, List.find?_isSome]
    exact ⟨other, hother, by simpa using hsame⟩
  have hmem := List.mem_of_find?_eq_some hmember
  have heq : member.name = name := by simpa using List.find?_some hmember
  obtain ⟨hopens, hsound, hsize⟩ := h.readable member hmem (heq ▸ hname)
  refine ⟨member, hmem, heq, hmember, ?_, hsound, hsize⟩
  rw [byName, hmember, orError, ok_bind, require, if_pos hopens]
  rfl

theorem length_manifest : (extracted archive saveItemsManifest).2.length = bytes.length := by
  obtain ⟨member, hmem, heq, hmember, -⟩ := h.byName_eq manifest_mem_approvedNames
  rw [extracted, hmember, ← h.manifest member hmem heq]
  rfl

theorem length_item {entry : SaveItemManifestEntry} (hentry : entry ∈ entries) :
    (extracted archive (memberName entry.filename)).2.length = entry.bytesLen := by
  obtain ⟨member, hmem, heq, hmember, -⟩ := h.byName_eq (entry_mem_approvedNames hentry)
  rw [extracted, hmember, ← h.items member hmem entry hentry heq]
  rfl

theorem sum_lengths : ((approvedNames entries).map fun name => (extracted archive name).2.length).sum =
    bytes.length + (entries.map SaveItemManifestEntry.bytesLen).sum := by
  rw [approvedNames, List.map_cons, List.sum_cons, h.length_manifest, List.map_map]
  congr 2
  exact List.map_congr_left fun entry hentry => h.length_item hentry

theorem readManifest : Ensures (Failure target manifest bytes entries)
    (fun read => read = entries ∧ bytes.length ≤ maxSaveItemManifestBytes) (readSaveItemManifest archive) := by
  obtain ⟨member, hmem, heq, hmember, hbyName, hsound, hsize⟩ := h.byName_eq manifest_mem_approvedNames
  have hcontent := h.manifest member hmem heq
  rw [readSaveItemManifest, hbyName, ok_bind]
  refine ensures_require_bind (fun hlarge => ?_) fun hsmall => ?_
  · refine .inl ⟨.manifest, fun hwithin => hlarge ?_⟩
    rw [hsize, hcontent]
    exact hwithin.1
  rw [hsize, hcontent] at hsmall
  have hread : member.readTake (maxSaveItemManifestBytes + 1) = .ok bytes := by
    rw [Member.readTake, require, if_pos (.inr hsound), hcontent]
    exact congrArg Except.ok (List.take_of_length_le (by omega))
  rw [hread, ok_bind, require, if_pos hsmall, ok_bind, require, if_pos (by rw [hsize, hcontent]), ok_bind, h.accepted]
  exact ⟨rfl, hsmall⟩

theorem checkEntries_eq {rest : List SaveItemManifestEntry} (hrest : ∀ entry ∈ rest, entry ∈ entries) :
    rest.forM (checkEntry archive (saveItemNames archive)) = .ok () := by
  induction rest with
  | nil => rfl
  | cons entry rest ih =>
    have hentry := hrest entry List.mem_cons_self
    have hname := entry_mem_approvedNames hentry
    obtain ⟨member, hmem, heq, -, hbyName, -, hsize⟩ := h.byName_eq hname
    have hfirst : checkEntry archive (saveItemNames archive) entry = .ok () := by
      simp only [checkEntry]
      rw [require, if_pos (h.names.mem_iff.mpr hname), ok_bind, hbyName, ok_bind, require,
        if_pos (by rw [hsize, h.items member hmem entry hentry heq])]
    change (checkEntry archive (saveItemNames archive) entry >>= fun _ => _) = _
    rw [hfirst, ok_bind]
    exact ih fun other hother => hrest other (List.mem_cons_of_mem _ hother)

theorem length_le {name : String} (hname : name ∈ approvedNames entries)
    (hsmall : bytes.length ≤ maxSaveItemManifestBytes) :
    (extracted archive name).2.length ≤ maxSaveItemMemberBytes := by
  obtain ⟨lines, hdeclared⟩ := h.declared
  by_cases hmanifest : name = saveItemsManifest
  · rw [hmanifest, h.length_manifest]
    exact hsmall.trans (by decide)
  · obtain ⟨entry, hentry, rfl⟩ := List.mem_map.mp (List.mem_of_ne_of_mem hmanifest hname)
    rw [h.length_item hentry]
    exact hdeclared.small entry hentry

theorem relativeName_mem {name : String} (hname : name ∈ approvedNames entries) :
    isPortableFileName (relativeName name) maxSaveItemFilenameBytes := by
  obtain ⟨lines, hdeclared⟩ := h.declared
  apply hdeclared.portable_names
  rw [← map_relativeName_approvedNames]
  exact List.mem_map_of_mem hname

theorem relativeName_nodup : ((approvedNames entries).map relativeName).Nodup := by
  obtain ⟨lines, hdeclared⟩ := h.declared
  rw [map_relativeName_approvedNames]
  exact hdeclared.distinct_names.of_map _

/-- One file is written, or the sum up to it is over the limit. -/
theorem writeItem {done rest : List String} {name : String} {written : Written}
    (hsmall : bytes.length ≤ maxSaveItemManifestBytes) (hsplit : approvedNames entries = done ++ name :: rest)
    (hwritten : Holds archive done written) :
    Ensures (Failure target manifest bytes entries) (fun _ => True) (writeItem target archive written name) := by
  have hname : name ∈ approvedNames entries := by
    rw [hsplit]
    exact List.mem_append_right _ List.mem_cons_self
  obtain ⟨member, -, -, hmember, hbyName, hsound, hsize⟩ := h.byName_eq hname
  have hlength : (extracted archive name).2.length = member.size := by
    rw [extracted, hmember, hsize]
    rfl
  have hle := h.length_le hname hsmall
  have hsum := h.sum_lengths
  have htotal : written.totalBytes = (done.map fun name => (extracted archive name).2.length).sum := by
    rw [hwritten.totalBytes, hwritten.files, List.map_map]
    rfl
  rw [hsplit, List.map_append, List.sum_append, ← htotal, List.map_cons, List.sum_cons, hlength] at hsum
  have hnew : relativeName name ∉ written.files.map Prod.fst := by
    have hnodup := h.relativeName_nodup
    rw [hsplit, List.map_append, List.map_cons] at hnodup
    rw [hwritten.files, List.map_map]
    exact fun hmem => List.disjoint_of_nodup_append hnodup hmem List.mem_cons_self
  have hmaxTotal : maxSaveItemTotalBytes = 536870912 := rfl
  have hmaxMember : maxSaveItemMemberBytes = 134217728 := rfl
  have hbounded := hwritten.bounded
  rw [hlength] at hle
  simp only [Pc98Bridge.writeItem]
  rw [require, if_pos (h.relativeName_mem hname), ok_bind, hbyName, ok_bind, require, if_pos hle, ok_bind,
    show checkedAdd written.totalBytes member.size = some (written.totalBytes + member.size) from
      if_pos (by omega)]
  refine ensures_require_bind (fun hover => ?_) fun _ => ?_
  · refine .inl ⟨.total, fun hwithin => ?_⟩
    have hlimit := hwithin.2
    omega
  refine ensures_require_bind (fun hfile => ?_) fun _ => ?_
  · exact .inr (.inl ⟨rfl, fun hfree => hfile ⟨hfree.2.1 _, hnew⟩⟩)
  rw [Member.readTake, require, if_pos (.inr hsound), ok_bind,
    List.take_of_length_le (by rw [← hsize]; omega)]
  refine ensures_require_bind (fun hwrites => ?_) fun _ => ?_
  · exact .inr (.inl ⟨rfl, fun hfree => hwrites (hfree.2.2 _)⟩)
  rw [require, if_pos ⟨hsize.symm, by omega⟩]
  trivial

theorem writes {done rest : List String} {written : Written}
    (hsmall : bytes.length ≤ maxSaveItemManifestBytes) (hsplit : approvedNames entries = done ++ rest)
    (hwritten : Holds archive done written) :
    Ensures (Failure target manifest bytes entries) (Holds archive (approvedNames entries))
      (rest.foldlM (Pc98Bridge.writeItem target archive) written) := by
  induction rest generalizing done written with
  | nil =>
    rw [hsplit, List.append_nil]
    exact hwritten
  | cons name rest ih =>
    rw [List.foldlM_cons]
    refine ((h.writeItem hsmall hsplit hwritten).and hwritten.writeItem).bind fun written' hwritten' => ?_
    exact ih (hsplit.trans (by rw [List.append_assoc, List.singleton_append])) hwritten'.2

/-- The extraction of a complete archive is within the limits or fails. -/
theorem extract : Ensures (Failure target manifest bytes entries)
    (fun _ => NamesDirectory manifest → WithinLimits bytes entries) (extractSaveItems target archive manifest) := by
  obtain ⟨lines, hdeclared⟩ := h.declared
  have hmembers : maxSaveItemMembers = 4096 := rfl
  rw [extractSaveItems]
  split
  next hnone =>
    rintro ⟨saveItems, hsome, -⟩
    cases hnone.symm.trans hsome
  next saveItems hsome =>
    refine ensures_require_bind (fun hother => ?_) fun _ => ?_
    · refine .inr (.inr ⟨⟨_, rfl⟩, ?_⟩)
      rintro ⟨saveItems', hsome', hdirectory⟩
      obtain rfl : saveItems = saveItems' := Option.some.inj (hsome.symm.trans hsome')
      exact hother hdirectory
    have hcount : (saveItemNames archive).length ≤ maxSaveItemMembers := by
      have hlines := hdeclared.count
      rw [h.names.length_eq, approvedNames, List.length_cons, List.length_map]
      omega
    dsimp only
    rw [require, if_pos hcount, ok_bind, require, if_pos (h.names.mem_iff.mpr manifest_mem_approvedNames), ok_bind,
      h.checkNames_eq, ok_bind]
    refine h.readManifest.bind fun read hmanifest => ?_
    obtain ⟨hread, hsmall⟩ := hmanifest
    rw [hread, h.checkEntries_eq fun _ hentry => hentry, ok_bind, require,
      if_pos ⟨fun name hname => h.names.mem_iff.mp hname, fun name hname => h.names.mem_iff.mpr hname⟩, ok_bind]
    refine ensures_require_bind (fun hdir => ?_) fun _ => ?_
    · exact .inr (.inl ⟨rfl, fun hfree => hdir hfree.1⟩)
    refine (h.writes hsmall rfl (holds_nil archive)).bind fun written hwritten _ => ⟨hsmall, ?_⟩
    have hbounded := hwritten.bounded
    rw [hwritten.totalBytes, hwritten.files, List.map_map] at hbounded
    rw [← h.sum_lengths]
    exact hbounded

end Complete

/-! ## When the limits agree -/

def saveItemsState : Json := .obj [("save_items", .obj [])]

def freeTarget : Target := ⟨true, fun _ => true, fun _ => true⟩

theorem namesDirectory_saveItemsState : NamesDirectory saveItemsState := ⟨[], by decide, by decide⟩

theorem freeTarget_free : freeTarget.Free := ⟨rfl, fun _ => rfl, fun _ => rfl⟩

theorem Complete.fails (h : Complete archive bytes entries) (hover : ¬ WithinLimits bytes entries) :
    ∃ e, extractSaveItems freeTarget archive saveItemsState = .error e ∧ LimitError e := by
  have hextract := @extract freeTarget archive saveItemsState bytes entries h
  match hresult : extractSaveItems freeTarget archive saveItemsState with
  | .ok files => exact absurd (hextract.ok hresult namesDirectory_saveItemsState) hover
  | .error e =>
    refine ⟨e, rfl, ?_⟩
    rcases hextract.error hresult with hlimit | hio | hdirectory
    · exact hlimit.1
    · exact absurd freeTarget_free hio.2
    · exact absurd namesDirectory_saveItemsState hdirectory.2

theorem Failure.not_limitError {e : ArchiveError} (h : Failure target manifest bytes entries e)
    (hwithin : WithinLimits bytes entries) : ¬ LimitError e := by
  rcases h with hlimit | ⟨rfl, -⟩ | ⟨⟨directory, rfl⟩, -⟩
  · exact absurd hwithin hlimit.2
  · exact not_limitError_io
  · exact not_limitError_directory directory

/-- What is extracted is the manifest and the declared files, and nothing else is in the archive. An archive that is
complete for an accepted manifest never fails for a limit exactly where the manifest is not too large and, together
with its items, within the limit of the whole. -/
theorem extractSaveItems_iff_withinLimits (archive : List Member) :
    (∀ target manifest files, extractSaveItems target archive manifest = .ok (some files) →
      ∃ text entries, Extracted archive files text entries) ∧
    ∀ bytes entries, Complete archive bytes entries →
      ((∀ target manifest e, extractSaveItems target archive manifest = .error e → ¬ LimitError e) ↔
        WithinLimits bytes entries) := by
  refine ⟨fun target manifest files hok => ensures_extractSaveItems.ok hok files rfl, fun bytes entries h => ⟨?_, ?_⟩⟩
  · intro hnever
    by_contra hover
    obtain ⟨e, herror, hlimit⟩ := h.fails hover
    exact hnever _ _ e herror hlimit
  · intro hwithin target manifest e herror
    exact (h.extract.error herror).not_limitError hwithin

end complete

def zerosArchive (bytes : List UInt8) (entries : List SaveItemManifestEntry) : List Member :=
  ⟨saveItemsManifest, bytes.length, true, bytes, true⟩ :: entries.map fun entry =>
    ⟨memberName entry.filename, entry.bytesLen, true, List.replicate entry.bytesLen 0, true⟩

theorem map_name_zerosArchive (bytes : List UInt8) (entries : List SaveItemManifestEntry) :
    (zerosArchive bytes entries).map Member.name = approvedNames entries := by
  rw [zerosArchive, List.map_cons, List.map_map]
  rfl

theorem saveItemNames_zerosArchive (bytes : List UInt8) (entries : List SaveItemManifestEntry) :
    saveItemNames (zerosArchive bytes entries) = approvedNames entries := by
  rw [saveItemNames, map_name_zerosArchive, List.filter_eq_self, approvedNames_eq]
  intro name hname
  obtain ⟨filename, -, rfl⟩ := List.mem_map.mp hname
  rw [memberName, List.isPrefixOf_iff_prefix, @String.toList_append (saveItemsDir ++ "/") filename]
  exact List.prefix_append _ _

theorem complete_zerosArchive {bytes : List UInt8} {entries : List SaveItemManifestEntry}
    (haccepted : parseSaveItemManifest bytes = .ok entries) : Complete (zerosArchive bytes entries) bytes entries := by
  obtain ⟨text, -, hdeclared⟩ := ensures_parseSaveItemManifest.ok haccepted
  have hnames := hdeclared.distinct_names.of_map _
  have hmanifest : ∀ entry ∈ entries, memberName entry.filename ≠ saveItemsManifest := by
    intro entry hentry hsame
    rw [saveItemsManifest_eq] at hsame
    rw [List.nodup_cons, ← memberName_injective hsame] at hnames
    exact hnames.1 (List.mem_map_of_mem hentry)
  refine ⟨haccepted, .of_eq (saveItemNames_zerosArchive bytes entries), ?_, ?_, ?_⟩
  · refine List.forall_mem_cons.mpr ⟨fun _ => ⟨rfl, rfl, rfl⟩, fun member hmember _ => ?_⟩
    obtain ⟨entry, -, rfl⟩ := List.mem_map.mp hmember
    exact ⟨rfl, rfl, (List.length_replicate).symm⟩
  · refine List.forall_mem_cons.mpr ⟨fun _ => rfl, fun member hmember hsame => ?_⟩
    obtain ⟨entry, hentry, rfl⟩ := List.mem_map.mp hmember
    exact absurd hsame (hmanifest entry hentry)
  · refine List.forall_mem_cons.mpr ⟨fun entry hentry hsame => ?_, fun member hmember entry hentry hsame => ?_⟩
    · exact absurd hsame.symm (hmanifest entry hentry)
    · obtain ⟨other, hother, rfl⟩ := List.mem_map.mp hmember
      have heq := List.inj_on_of_nodup_map (List.nodup_cons.mp hnames).2 hother hentry (memberName_injective hsame)
      rw [heq, List.length_replicate]

def smallManifest : List UInt8 := utf8 "0|1|2|2|a\n"

theorem parse_smallManifest : parseSaveItemManifest smallManifest = .ok [⟨"a", 2⟩] := by decide +kernel

theorem extractSaveItems_iff_withinLimits_sample :
    (∃ text entries, Extracted (zerosArchive smallManifest [⟨"a", 2⟩])
      [("manifest.txt", smallManifest), ("a", [0, 0])] text entries) ∧
    ∀ target manifest e, extractSaveItems target (zerosArchive smallManifest [⟨"a", 2⟩]) manifest = .error e →
      ¬ LimitError e :=
  have h := extractSaveItems_iff_withinLimits (zerosArchive smallManifest [⟨"a", 2⟩])
  ⟨h.1 freeTarget saveItemsState _ (by decide +kernel),
    (h.2 smallManifest _ (complete_zerosArchive parse_smallManifest)).mpr (by decide +kernel)⟩

def largeManifest : List UInt8 :=
  utf8 "0|1|134217728|134217728|a\n1|1|134217728|134217728|b\n2|1|134217728|134217728|c\n3|1|134217728|134217728|d\n"

def largeEntries : List SaveItemManifestEntry := ["a", "b", "c", "d"].map fun name => ⟨name, maxSaveItemMemberBytes⟩

/-- The lines of the manifest keep to the limit, but the manifest is written too. -/
theorem largeEntries_refused :
    Complete (zerosArchive largeManifest largeEntries) largeManifest largeEntries ∧
      ∃ e, extractSaveItems freeTarget (zerosArchive largeManifest largeEntries) saveItemsState = .error e ∧
        LimitError e := by
  have haccepted : parseSaveItemManifest largeManifest = .ok largeEntries := by decide +kernel
  have hover : ¬ WithinLimits largeManifest largeEntries := by decide +kernel
  have hcomplete := complete_zerosArchive haccepted
  exact ⟨hcomplete, hcomplete.fails hover⟩

end Emucap.Pc98Bridge
