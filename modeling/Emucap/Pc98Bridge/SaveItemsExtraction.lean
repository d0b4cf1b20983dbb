import Emucap.Pc98Bridge.SaveItemsManifest

/-!
# What the extraction of save items writes

A directory that is written holds the manifest and one file for every line of it. The manifest's parser bounds the sum
over its lines, the extraction the sum over all that it writes, which the manifest is part of.
-/

namespace Emucap.Pc98Bridge

open Emucap.Lib

def extracted (archive : List Member) (name : String) : String × List UInt8 :=
  (relativeName name, ((archive.find? (·.name = name)).map Member.content).getD [])

theorem relativeName_memberName (filename : String) : relativeName (memberName filename) = filename := by
  rw [relativeName, memberName, String.toList_append, String.toList_append, List.append_assoc,
    show saveItemsDir.length + 1 = (saveItemsDir.toList ++ "/".toList).length by decide, ← List.append_assoc,
    List.drop_left, String.ofList_toList]

theorem saveItemsManifest_eq : saveItemsManifest = memberName "manifest.txt" := by decide

theorem memberName_injective {a b : String} (h : memberName a = memberName b) : a = b := by
  rw [← relativeName_memberName a, h, relativeName_memberName]

theorem approvedNames_eq (entries : List SaveItemManifestEntry) :
    approvedNames entries = ("manifest.txt" :: entries.map SaveItemManifestEntry.filename).map memberName := by
  rw [approvedNames, List.map_cons, List.map_map, saveItemsManifest_eq]
  rfl

theorem map_relativeName_approvedNames (entries : List SaveItemManifestEntry) :
    (approvedNames entries).map relativeName = "manifest.txt" :: entries.map SaveItemManifestEntry.filename := by
  have hid : relativeName ∘ memberName = id := funext relativeName_memberName
  rw [approvedNames_eq, List.map_map, hid, List.map_id]

theorem DeclaredBy.distinct_names {lines : List (List Char)} {entries : List SaveItemManifestEntry}
    (h : DeclaredBy lines entries) :
    (("manifest.txt" :: entries.map SaveItemManifestEntry.filename).map toAsciiLowercase).Nodup := by
  rw [List.map_cons, List.map_map, List.nodup_cons]
  refine ⟨fun hmem => ?_, h.distinct⟩
  obtain ⟨entry, hentry, hsame⟩ := List.mem_map.mp hmem
  exact (h.portable entry hentry).2 hsame

theorem DeclaredBy.portable_names {lines : List (List Char)} {entries : List SaveItemManifestEntry}
    (h : DeclaredBy lines entries) :
    ∀ name ∈ "manifest.txt" :: entries.map SaveItemManifestEntry.filename,
      isPortableFileName name maxSaveItemFilenameBytes := by
  refine List.forall_mem_cons.mpr ⟨by decide +kernel, fun name hname => ?_⟩
  obtain ⟨entry, hentry, rfl⟩ := List.mem_map.mp hname
  exact (h.portable entry hentry).1

/-! ## What a successful extraction has done -/

theorem ensures_byName {archive : List Member} {name : String} :
    Ensures AnyError (fun member => archive.find? (·.name = name) = some member) (byName archive name) := by
  refine ensures_orError_bind (fun _ => trivial) fun member hmember => ?_
  refine ensures_require_bind (fun _ => trivial) fun _ => ?_
  exact hmember

theorem ensures_readTake {member : Member} {limit : ℕ} :
    Ensures AnyError (fun bytes => bytes = member.content.take limit) (member.readTake limit) :=
  ensures_require_bind (fun _ => trivial) fun _ => rfl

theorem take_eq_self {bytes : List UInt8} {limit : ℕ} (h : (bytes.take (limit + 1)).length ≤ limit) :
    bytes.take (limit + 1) = bytes := by
  rw [List.length_take] at h
  exact List.take_of_length_le (by omega)

theorem ensures_checkNames {seen names : List String} (hseen : seen.Nodup) :
    Ensures AnyError (fun _ => (seen ++ names).Nodup) (checkNames seen names) := by
  induction names generalizing seen with
  | nil =>
    rw [List.append_nil]
    exact hseen
  | cons name rest ih =>
    refine ensures_require_bind (fun _ => trivial) fun hnew => ?_
    refine ensures_require_bind (fun _ => trivial) fun _ => ?_
    have hnodup : (seen ++ [name]).Nodup := by
      rw [List.nodup_append_comm, List.singleton_append, List.nodup_cons]
      exact ⟨hnew, hseen⟩
    have hrest := ih hnodup
    rwa [List.append_assoc, List.singleton_append] at hrest

theorem ensures_readSaveItemManifest {archive : List Member} :
    Ensures AnyError (fun entries => ∃ text, fromUtf8 (extracted archive saveItemsManifest).2 = some text ∧
        DeclaredBy (splitTerminator '\n' text.toList) entries)
      (readSaveItemManifest archive) := by
  refine (ensures_byName).bind fun member hmember => ?_
  refine ensures_require_bind (fun _ => trivial) fun _ => ?_
  refine (ensures_readTake).bind fun bytes hbytes => ?_
  refine ensures_require_bind (fun _ => trivial) fun hmax => ?_
  refine ensures_require_bind (fun _ => trivial) fun _ => ?_
  rw [hbytes] at hmax
  rw [hbytes, take_eq_self hmax, extracted, hmember]
  exact ensures_parseSaveItemManifest

theorem ensures_checkEntries {archive : List Member} {names : List String} {entries : List SaveItemManifestEntry} :
    Ensures AnyError (fun _ => ∀ entry ∈ entries, ∃ member,
        archive.find? (·.name = memberName entry.filename) = some member ∧ member.size = entry.bytesLen)
      (entries.forM (checkEntry archive names)) := by
  induction entries with
  | nil => exact nofun
  | cons entry rest ih =>
    have hentry : Ensures AnyError (fun _ => ∃ member,
        archive.find? (·.name = memberName entry.filename) = some member ∧ member.size = entry.bytesLen)
        (checkEntry archive names entry) := by
      refine ensures_require_bind (fun _ => trivial) fun _ => ?_
      refine (ensures_byName).bind fun member hmember => ?_
      exact (ensures_require fun _ => trivial).mono fun _ hsize => ⟨member, hmember, hsize⟩
    exact hentry.bind fun _ hfirst => ih.mono fun _ hrest => List.forall_mem_cons.mpr ⟨hfirst, hrest⟩

/-- The files of the directory after the members of these names, each of which yields as much as the archive says. -/
structure Holds (archive : List Member) (names : List String) (written : Written) : Prop where
  files : written.files = names.map (extracted archive)
  totalBytes : written.totalBytes = (written.files.map fun file => file.2.length).sum
  bounded : written.totalBytes ≤ maxSaveItemTotalBytes
  sizes : ∀ name ∈ names, ∃ member, archive.find? (·.name = name) = some member ∧ member.size = member.content.length

theorem Holds.writeItem {target : Target} {archive : List Member} {names : List String} {written : Written}
    {name : String} (h : Holds archive names written) :
    Ensures AnyError (Holds archive (names ++ [name])) (writeItem target archive written name) := by
  refine ensures_require_bind (fun _ => trivial) fun _ => ?_
  refine (ensures_byName).bind fun member hmember => ?_
  refine ensures_require_bind (fun _ => trivial) fun _ => ?_
  refine ensures_orError_bind (fun _ => trivial) fun total htotal => ?_
  obtain ⟨-, rfl⟩ := checkedAdd_eq_some.mp htotal
  refine ensures_require_bind (fun _ => trivial) fun hbound => ?_
  refine ensures_require_bind (fun _ => trivial) fun _ => ?_
  refine (ensures_readTake).bind fun copied hcopied => ?_
  refine ensures_require_bind (fun _ => trivial) fun _ => ?_
  refine ensures_require_bind (fun _ => trivial) fun ⟨hsize, hmax⟩ => ?_
  have hwhole : copied = member.content := by
    rw [hcopied] at hmax ⊢
    exact take_eq_self hmax
  have hfile : extracted archive name = (relativeName name, copied) := by rw [extracted, hmember, hwhole]; rfl
  refine ⟨?_, ?_, hbound, ?_⟩
  · rw [List.map_append, ← h.files, List.map_singleton, hfile]
  · rw [List.map_append, List.sum_append, ← h.totalBytes, ← hsize]
    simp
  · refine List.forall_mem_append.mpr ⟨h.sizes, List.forall_mem_singleton.mpr ⟨member, hmember, ?_⟩⟩
    rw [← hwhole, hsize]

theorem Holds.run {target : Target} {archive : List Member} {names rest : List String} {written : Written}
    (h : Holds archive names written) :
    Ensures AnyError (Holds archive (names ++ rest)) (rest.foldlM (Pc98Bridge.writeItem target archive) written) := by
  induction rest generalizing names written with
  | nil =>
    rw [List.append_nil]
    exact h
  | cons name rest ih =>
    rw [List.foldlM_cons]
    refine h.writeItem.bind fun written' hwritten => ?_
    have hrest := ih hwritten
    rwa [List.append_assoc, List.singleton_append] at hrest

theorem holds_nil (archive : List Member) : Holds archive [] ⟨0, []⟩ := ⟨rfl, rfl, Nat.zero_le _, nofun⟩

/-- A directory that holds exactly the save items of an archive: its manifest, and a file for every line of that, with
the declared length. -/
structure Extracted (archive : List Member) (files : List (String × List UInt8)) (text : String)
    (entries : List SaveItemManifestEntry) : Prop where
  manifest : files.head?.bind (fun file => fromUtf8 file.2) = some text
  declared : DeclaredBy (splitTerminator '\n' text.toList) entries
  names : files.map Prod.fst = "manifest.txt" :: entries.map SaveItemManifestEntry.filename
  lengths : files.tail.map (fun file => file.2.length) = entries.map SaveItemManifestEntry.bytesLen
  contents : ∀ file ∈ files, ∃ member ∈ archive, member.name = memberName file.1 ∧ member.content = file.2
  nothingElse : (saveItemNames archive).Perm (files.map fun file => memberName file.1)
  portable : ∀ file ∈ files, isPortableFileName file.1 maxSaveItemFilenameBytes
  distinct : (files.map fun file => toAsciiLowercase file.1).Nodup
  total : (files.map fun file => file.2.length).sum ≤ maxSaveItemTotalBytes

theorem extracted_of_holds {archive : List Member} {written : Written} {text : String}
    {entries : List SaveItemManifestEntry} (hdeclared : DeclaredBy (splitTerminator '\n' text.toList) entries)
    (htext : fromUtf8 (extracted archive saveItemsManifest).2 = some text)
    (hnodup : (saveItemNames archive).Nodup)
    (hsame : (∀ name ∈ saveItemNames archive, name ∈ approvedNames entries) ∧
      ∀ name ∈ approvedNames entries, name ∈ saveItemNames archive)
    (hlengths : ∀ entry ∈ entries, ∃ member,
      archive.find? (·.name = memberName entry.filename) = some member ∧ member.size = entry.bytesLen)
    (h : Holds archive (approvedNames entries) written) : Extracted archive written.files text entries := by
  have hnames : written.files.map Prod.fst = "manifest.txt" :: entries.map SaveItemManifestEntry.filename := by
    rw [h.files, List.map_map, ← map_relativeName_approvedNames]
    rfl
  have hmembers : written.files.map (fun file => memberName file.1) = approvedNames entries := by
    rw [approvedNames_eq, ← hnames, List.map_map]
    rfl
  have hfolded : written.files.map (fun file => toAsciiLowercase file.1) =
      ("manifest.txt" :: entries.map SaveItemManifestEntry.filename).map toAsciiLowercase := by
    rw [← hnames, List.map_map]
    rfl
  refine ⟨?_, hdeclared, hnames, ?_, ?_, ?_, ?_, ?_, ?_⟩
  · rw [h.files, approvedNames, List.map_cons, List.head?_cons, Option.bind_some, htext]
  · rw [h.files, approvedNames, List.map_cons, List.tail_cons, List.map_map, List.map_map]
    refine List.map_congr_left fun entry hentry => ?_
    obtain ⟨member, hmember, hsize⟩ := hlengths entry hentry
    obtain ⟨member', hmember', hyields⟩ := h.sizes (memberName entry.filename)
      (List.mem_cons_of_mem _ (List.mem_map_of_mem hentry))
    obtain rfl : member = member' := Option.some.inj (hmember.symm.trans hmember')
    rw [← hsize, hyields, Function.comp_apply, Function.comp_apply, extracted, hmember]
    rfl
  · rw [h.files]
    intro file hfile
    obtain ⟨name, hname, rfl⟩ := List.mem_map.mp hfile
    obtain ⟨member, hmember, -⟩ := h.sizes name hname
    refine ⟨member, List.mem_of_find?_eq_some hmember, ?_, by rw [extracted, hmember]; rfl⟩
    rw [approvedNames_eq] at hname
    obtain ⟨filename, -, rfl⟩ := List.mem_map.mp hname
    rw [extracted, relativeName_memberName]
    simpa using List.find?_some hmember
  · rw [hmembers]
    have happroved : (approvedNames entries).Nodup := by
      rw [approvedNames_eq]
      exact (hdeclared.distinct_names.of_map _).map fun _ _ => memberName_injective
    exact (List.perm_ext_iff_of_nodup hnodup happroved).mpr fun name => ⟨hsame.1 name, hsame.2 name⟩
  · intro file hfile
    have hname : file.1 ∈ "manifest.txt" :: entries.map SaveItemManifestEntry.filename := by
      rw [← hnames]
      exact List.mem_map_of_mem hfile
    exact hdeclared.portable_names file.1 hname
  · rw [hfolded]
    exact hdeclared.distinct_names
  · rw [← h.totalBytes]
    exact h.bounded

theorem ensures_extractSaveItems {target : Target} {archive : List Member} {manifest : Json} :
    Ensures AnyError (fun written => ∀ files, written = some files → ∃ text entries,
        Extracted archive files text entries) (extractSaveItems target archive manifest) := by
  rw [extractSaveItems]
  split
  · exact nofun
  · refine ensures_require_bind (fun _ => trivial) fun _ => ?_
    refine ensures_require_bind (fun _ => trivial) fun _ => ?_
    refine ensures_require_bind (fun _ => trivial) fun _ => ?_
    refine (ensures_checkNames List.nodup_nil).bind fun _ hnodup => ?_
    refine (ensures_readSaveItemManifest).bind fun entries ⟨text, htext, hdeclared⟩ => ?_
    refine (ensures_checkEntries).bind fun _ hlengths => ?_
    refine ensures_require_bind (fun _ => trivial) fun hsame => ?_
    refine ensures_require_bind (fun _ => trivial) fun _ => ?_
    refine (holds_nil archive).run.bind fun written hwritten => ?_
    intro files hfiles
    obtain rfl := Option.some.inj hfiles
    exact ⟨text, entries, extracted_of_holds hdeclared htext hnodup hsame hlengths hwritten⟩

end Emucap.Pc98Bridge
