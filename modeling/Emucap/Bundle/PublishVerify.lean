import Emucap.Bundle.Publish
import Emucap.Bundle.Revalidation
import Emucap.Lib.Stateful

/-!
# What is published can be verified

The members that a publication checked are not touched on the way to the bundle, so its verification checks the same
members again; it asks for the size of the manifest besides.
-/

namespace Emucap.Bundle

open Emucap.Lib Emucap.Live

/-! ## Directories with the same members -/

def SameMembers (es es' : List (String × FsNode)) : Prop :=
  ∀ name, name ≠ manifestMember → name ≠ recoveryOwnerMember → OrdMap.find? name es = OrdMap.find? name es'

section same
variable {env : Env} {base base' : FsPath} {es es' : List (String × FsNode)} {p : Bool}

theorem components_of_mem {name : String}
    (h : name ∈ ["events", inputMovieMember, initialStateMember, terminalStateMember]) :
    (FsPath.new name).components = [name] ∧ name ≠ manifestMember ∧ name ≠ recoveryOwnerMember := by
  simp only [List.mem_cons, List.not_mem_nil, or_false] at h
  rcases h with rfl | rfl | rfl | rfl <;> decide

theorem snapshotDirectory_ne {directory : String} (h : directory ∈ [initialSnapshotsDir, snapshotsDir]) :
    directory ≠ manifestMember ∧ directory ≠ recoveryOwnerMember := by
  simp only [List.mem_cons, List.not_mem_nil, or_false] at h
  rcases h with rfl | rfl <;> decide

theorem components_join {directory rest : String}
    (hdirectory : directory ∈ [initialSnapshotsDir, snapshotsDir]) :
    ∃ path, (FsPath.new (directory ++ "/" ++ rest)).components = directory :: path := by
  have hplain : '/' ∉ directory.toList ∧ directory ≠ "" ∧ directory ≠ "." := by
    simp only [List.mem_cons, List.not_mem_nil, or_false] at hdirectory
    rcases hdirectory with rfl | rfl <;> decide
  obtain ⟨hslash, hempty, hdot⟩ := hplain
  have htext : (directory ++ "/" ++ rest).toList = directory.toList ++ '/' :: rest.toList := by
    rw [String.toList_append, String.toList_append, List.append_assoc]
    rfl
  have hsplit : (directory.toList ++ '/' :: rest.toList).splitOn '/' =
      directory.toList :: rest.toList.splitOn '/' :=
    List.splitOn_append_cons_self_of_not_mem hslash _
  refine ⟨((rest.toList.splitOn '/').map String.ofList).filter fun c => c != "" && c != ".", ?_⟩
  simp only [FsPath.new, htext, hsplit, List.map_cons, String.ofList_toList, List.head?_cons]
  rw [if_neg (by simp [hdot]), List.filter_cons_of_pos (by simp [hempty, hdot])]

theorem readBoundedRegularMember_same (hsame : SameMembers es es') {relative name : String} {path : List String}
    (hcomponents : (FsPath.new relative).components = name :: path) (hmanifest : name ≠ manifestMember)
    (howner : name ≠ recoveryOwnerMember) (maxBytes : ℕ) :
    readBoundedRegularMember (.dir es p) relative maxBytes =
      readBoundedRegularMember (.dir es' p) relative maxBytes := by
  rw [readBoundedRegularMember, readBoundedRegularMember, hcomponents,
    FsNode.openMember_dir_congr (hsame name hmanifest howner)]

theorem stat?_same (hsame : SameMembers es es') {name : String} (hmanifest : name ≠ manifestMember)
    (howner : name ≠ recoveryOwnerMember) (path : List String) :
    (FsNode.dir es p).stat? (name :: path) = (FsNode.dir es' p).stat? (name :: path) :=
  FsNode.stat?_dir_congr (hsame name hmanifest howner) path

theorem regularOwnedMember_same (hsame : SameMembers es es')
    (h : regularOwnedMember base (.dir es p) eventsPath = .ok ()) :
    regularOwnedMember base' (.dir es' p) eventsPath = .ok () := by
  simp only [regularOwnedMember, orError_bind_eq_ok, require_eq_ok] at h ⊢
  rwa [eventsPath, ← stat?_same hsame (by decide) (by decide), ← eventsPath]

theorem validateInputMovieMember_same (hsame : SameMembers es es') (request : RecordingRequest) :
    validateInputMovieMember env (.dir es p) request = validateInputMovieMember env (.dir es' p) request := by
  obtain ⟨hcomponents, hmanifest, howner⟩ := components_of_mem (show inputMovieMember ∈ _ by simp)
  rw [validateInputMovieMember, validateInputMovieMember, stat?_same hsame hmanifest howner]
  simp only [readBoundedRegularMember_same hsame hcomponents hmanifest howner]

theorem validateInitialStateMember_same (hsame : SameMembers es es') (request : RecordingRequest)
    (runtime : RuntimeIdentity) :
    validateInitialStateMember env (.dir es p) request runtime =
      validateInitialStateMember env (.dir es' p) request runtime := by
  obtain ⟨hcomponents, hmanifest, howner⟩ := components_of_mem (show initialStateMember ∈ _ by simp)
  rw [validateInitialStateMember, validateInitialStateMember, stat?_same hsame hmanifest howner]
  simp only [readBoundedRegularMember_same hsame hcomponents hmanifest howner]

theorem validateTerminalStateMember_same (hsame : SameMembers es es') (request : RecordingRequest) :
    validateTerminalStateMember env (.dir es p) request =
      validateTerminalStateMember env (.dir es' p) request := by
  obtain ⟨hcomponents, hmanifest, howner⟩ := components_of_mem (show terminalStateMember ∈ _ by simp)
  rw [validateTerminalStateMember, validateTerminalStateMember, stat?_same hsame hmanifest howner]
  simp only [readBoundedRegularMember_same hsame hcomponents hmanifest howner]

theorem snapshotMembers_same (hsame : SameMembers es es') {family : SnapshotFamily}
    (hdirectory : family.directory ∈ [initialSnapshotsDir, snapshotsDir]) (labels : List String) (total : ℕ)
    (snapshots : List SnapshotRequest) :
    snapshotMembers env (.dir es p) family labels total snapshots =
      snapshotMembers env (.dir es' p) family labels total snapshots := by
  have hother := snapshotDirectory_ne hdirectory
  induction snapshots generalizing labels total with
  | nil => rfl
  | cons snapshot rest ih =>
    obtain ⟨path, hcomponents⟩ : ∃ path, (FsPath.new (family.directory ++ "/" ++ (snapshot.label ++ ".bin"))).components =
        family.directory :: path := components_join hdirectory
    rw [← String.append_assoc] at hcomponents
    simp only [snapshotMembers, ih, readBoundedRegularMember_same hsame hcomponents hother.1 hother.2]

theorem validateSnapshotMembers_same (hsame : SameMembers es es') {family : SnapshotFamily}
    (hdirectory : family.directory ∈ [initialSnapshotsDir, snapshotsDir]) {snapshots : List SnapshotRequest}
    {members : List MemberDescriptor}
    (h : validateSnapshotMembers env base (.dir es p) family snapshots = .ok members) :
    validateSnapshotMembers env base' (.dir es' p) family snapshots = .ok members := by
  have hother := snapshotDirectory_ne hdirectory
  rw [validateSnapshotMembers] at h ⊢
  rw [← stat?_same hsame hother.1 hother.2]
  split_ifs at h ⊢ with hempty
  · exact h
  · simp only [bind_eq_ok, require_eq_ok, exists_const, orError_eq_ok] at h ⊢
    rwa [← snapshotMembers_same hsame hdirectory]

end same

/-! ## The layout -/

section layout
variable {base base' : FsPath}

theorem exactEntries_base {expected : List (String × MemberType)} {seen out : List String}
    {es : List (String × FsNode)} (h : exactEntries base expected seen es = .ok out) :
    exactEntries base' expected seen es = .ok out := by
  induction es generalizing seen with
  | nil => exact h
  | cons entry es ih =>
    obtain ⟨name, node⟩ := entry
    simp only [exactEntries, bind_eq_ok, require_eq_ok, exists_const, orError_eq_ok] at h ⊢
    obtain ⟨kind, hkind, hadmits, h⟩ := h
    exact ⟨kind, hkind, hadmits, ih h⟩

theorem exactDirectory_base {node : Option FsNode} {expected : List (String × MemberType)}
    (h : exactDirectory base node expected = .ok ()) : exactDirectory base' node expected = .ok () := by
  simp only [exactDirectory, bind_eq_ok, require_eq_ok, exists_const, orError_eq_ok] at h ⊢
  obtain ⟨node, hnode, howned, seen, hentries, h⟩ := h
  refine ⟨node, hnode, howned, seen, exactEntries_base hentries, ?_⟩
  split at h
  · cases h
  · rfl

theorem validateFinalLayout_base {root : FsNode} {request : RecordingRequest}
    (h : validateFinalLayout base root request = .ok ()) : validateFinalLayout base' root request = .ok () := by
  rw [validateFinalLayout, bind_eq_ok] at h ⊢
  obtain ⟨u, hroot, hevents⟩ := h
  exact ⟨(), exactDirectory_base hroot, exactDirectory_base hevents⟩

theorem admits_of_exactEntries {expected : List (String × MemberType)} {seen out : List String}
    {es : List (String × FsNode)} (h : exactEntries base expected seen es = .ok out) {name : String}
    {node : FsNode} (hmem : (name, node) ∈ es) :
    ∃ kind, OrdMap.find? name expected = some kind ∧ kind.admits node = true := by
  induction es generalizing seen with
  | nil => cases hmem
  | cons entry es ih =>
    simp only [exactEntries, bind_eq_ok, require_eq_ok, exists_const, orError_eq_ok] at h
    obtain ⟨kind, hkind, ⟨-, hadmits, -⟩, h⟩ := h
    rcases List.mem_cons.mp hmem with rfl | hmem
    · exact ⟨kind, hkind, hadmits⟩
    · exact ih h hmem

theorem isDir_of_layout {root : FsNode} {request : RecordingRequest}
    (h : validateFinalLayout base root request = .ok ()) :
    ∃ es p, root = .dir es p ∧ ∀ node ∈ OrdMap.find? "events" es, node.isDir = true := by
  rw [validateFinalLayout, bind_eq_ok] at h
  obtain ⟨u, hroot, -⟩ := h
  simp only [exactDirectory, bind_eq_ok, require_eq_ok, exists_const, orError_eq_ok, Option.some.injEq,
    exists_eq_left'] at hroot
  obtain ⟨⟨hdir, -⟩, seen, hentries, -⟩ := hroot
  cases root with
  | dir es p =>
    refine ⟨es, p, rfl, fun node hnode => ?_⟩
    obtain ⟨kind, hkind, hadmits⟩ := admits_of_exactEntries hentries (OrdMap.mem_of_find? hnode)
    have hdirectory : OrdMap.find? "events" (rootMembers request) = some .directory := rfl
    rw [hdirectory] at hkind
    cases hkind
    exact hadmits
  | file | symlink | special => cases hdir

theorem openMember_of_stat? {es : List (String × FsNode)} {p : Bool}
    (hdir : ∀ node ∈ OrdMap.find? "events" es, node.isDir = true) {bytes : List UInt8} {q : Bool}
    (h : (FsNode.dir es p).stat? eventsPath = some (.file bytes q)) :
    (FsNode.dir es p).openMember eventsPath = some bytes := by
  simp only [eventsPath, FsNode.stat?, FsNode.openMember, FsNode.resolve_dir, FsNode.child_dir,
    Option.bind_eq_bind, Option.bind_some, Option.bind_eq_some_iff] at h ⊢
  obtain ⟨node, hnode, parent, hparent, segment, hsegment, h⟩ := h
  cases node with
  | dir es' p' =>
    cases hparent
    cases h
    exact ⟨_, hnode, _, hsegment, rfl⟩
  | file | symlink | special => exact absurd (hdir _ hnode) (by simp [FsNode.isDir])

end layout

/-! ## The members of a manifest -/

theorem snapshotMembers_eq_ok {env : Env} {root : FsNode} {family : SnapshotFamily} {labels : List String}
    {total : ℕ} {snapshots : List SnapshotRequest} {members : List MemberDescriptor}
    (h : snapshotMembers env root family labels total snapshots = .ok members) :
    members.length = snapshots.length ∧ ∀ member ∈ members, member.role = family.role := by
  induction snapshots generalizing labels total members with
  | nil =>
    cases h
    exact ⟨rfl, by simp⟩
  | cons snapshot rest ih =>
    simp only [snapshotMembers, bind_eq_ok, require_eq_ok, exists_const, orError_eq_ok] at h
    obtain ⟨-, total, -, -, bytes, -, -, tail, htail, h⟩ := h
    cases h
    obtain ⟨hlength, hrole⟩ := ih htail
    exact ⟨by simp [hlength], List.forall_mem_cons.mpr ⟨rfl, hrole⟩⟩

theorem validateSnapshotMembers_eq_ok {env : Env} {base : FsPath} {root : FsNode} {family : SnapshotFamily}
    {snapshots : List SnapshotRequest} {members : List MemberDescriptor}
    (h : validateSnapshotMembers env base root family snapshots = .ok members) :
    members.length = snapshots.length ∧ ∀ member ∈ members, member.role = family.role := by
  rw [validateSnapshotMembers] at h
  split_ifs at h with hempty
  · obtain ⟨-, h⟩ := require_bind_eq_ok.mp h
    cases h
    simp [hempty]
  · simp only [bind_eq_ok, require_eq_ok, exists_const, orError_eq_ok] at h
    obtain ⟨-, directory, -, -, found, hfound, -, h⟩ := h
    cases h
    exact snapshotMembers_eq_ok hfound

theorem validateTerminalStateMember_eq_ok {env : Env} {root : FsNode} {request : RecordingRequest}
    {member : Option MemberDescriptor} (h : validateTerminalStateMember env root request = .ok member) :
    member.isSome = request.terminalState.isSome ∧ ∀ m ∈ member, m.role = .terminalState := by
  rw [validateTerminalStateMember] at h
  split at h
  · next hnone =>
    obtain ⟨-, h⟩ := require_bind_eq_ok.mp h
    cases h
    simp [hnone]
  · next identity hsome =>
    simp only [bind_eq_ok, require_eq_ok, exists_const] at h
    obtain ⟨-, bytes, -, -, value, -, -, h⟩ := h
    cases h
    simp [hsome]

theorem filter_role {members : List MemberDescriptor} {role : MemberRole}
    (h : ∀ member ∈ members, member.role = role) (other : MemberRole) :
    members.filter (fun member => member.role = other) = if role = other then members else [] := by
  split_ifs with heq
  · rw [List.filter_eq_self]
    intro member hmem
    simp [h member hmem, heq]
  · rw [List.filter_eq_nil_iff]
    intro member hmem
    simp [h member hmem, heq]

structure Staged (request : RecordingRequest) (initial terminal : List MemberDescriptor)
    (state : Option MemberDescriptor) : Prop where
  initialLength : initial.length = request.initialSnapshots.length
  initialRole : ∀ member ∈ initial, member.role = .initialSnapshot
  terminalLength : terminal.length = request.terminalSnapshots.length
  terminalRole : ∀ member ∈ terminal, member.role = .terminalSnapshot
  stateSome : state.isSome = request.terminalState.isSome
  stateRole : ∀ member ∈ state, member.role = .terminalState

def membersOf (request : RecordingRequest) (stream : EventStreamReport) (initial terminal : List MemberDescriptor)
    (state : Option MemberDescriptor) : MemberRole → List MemberDescriptor
  | .events => [⟨.events, eventsMember, stream.sha256, stream.physicalBytes, some stream.records⟩]
  | .inputMovie => request.inputMovie.toList.map fun identity =>
      ⟨.inputMovie, inputMovieMember, identity.sha256, identity.bytes, some identity.frames⟩
  | .initialState => request.initialState.toList.map stateMemberDescriptor
  | .initialSnapshot => initial
  | .terminalSnapshot => terminal
  | .terminalState => state.toList

section described
variable {request : RecordingRequest} {stream : EventStreamReport} {initial terminal : List MemberDescriptor}
  {state : Option MemberDescriptor}

theorem Staged.length_memberDescriptors (h : Staged request initial terminal state) :
    (memberDescriptors request stream (initial ++ terminal ++ state.toList)).length = expectedMembers request := by
  have hoption : ∀ {α : Type} (o : Option α), o.toList.length = o.isSome.toNat := by
    intro α o
    cases o <;> rfl
  simp only [memberDescriptors, expectedMembers, List.length_append, List.length_cons, List.length_nil,
    List.length_map, hoption, h.initialLength, h.terminalLength, h.stateSome]
  omega

theorem Staged.filter_memberDescriptors (h : Staged request initial terminal state) (role : MemberRole) :
    (memberDescriptors request stream (initial ++ terminal ++ state.toList)).filter (fun m => m.role = role) =
      membersOf request stream initial terminal state role := by
  have hmovie : ∀ member ∈ request.inputMovie.toList.map (fun identity : InputMovieIdentity =>
      (⟨.inputMovie, inputMovieMember, identity.sha256, identity.bytes, some identity.frames⟩ : MemberDescriptor)),
      member.role = .inputMovie := by
    intro member hmem
    obtain ⟨identity, -, rfl⟩ := List.mem_map.mp hmem
    rfl
  have hstate : ∀ member ∈ request.initialState.toList.map stateMemberDescriptor,
      member.role = .initialState := by
    intro member hmem
    obtain ⟨receipt, -, rfl⟩ := List.mem_map.mp hmem
    rfl
  have hlast : ∀ member ∈ state.toList, member.role = .terminalState := fun member hmem =>
    h.stateRole member (Option.mem_toList.mp hmem)
  simp only [memberDescriptors, List.filter_append, filter_role hmovie, filter_role hstate,
    filter_role h.initialRole, filter_role h.terminalRole, filter_role hlast]
  cases role <;> simp [membersOf]

end described

/-! ## The steps of a publication -/

section steps
variable {α : Type} {s s' : PublishState}

theorem liftCheck_eq_ok {c : PublishCheck α} {a : α} : liftCheck c s = .ok a s' ↔ c = .ok a ∧ s' = s := by
  cases c with
  | ok a' =>
    show EStateM.Result.ok a' s = .ok a s' ↔ _
    simp [eq_comm]
  | error e =>
    show EStateM.Result.error e s = .ok a s' ↔ _
    simp

theorem step_eq_ok {fault : Option IoError} {u : Unit} : step fault s = .ok u s' ↔ fault = none ∧ s' = s := by
  cases fault with
  | none =>
    show EStateM.Result.ok () s = .ok u s' ↔ _
    simp [eq_comm]
  | some e =>
    show EStateM.Result.error (PublishError.io e) s = .ok u s' ↔ _
    simp

theorem injectIf_eq_ok {c : Bool} {name : String} {u : Unit} :
    injectIf c name s = .ok u s' ↔ c = false ∧ s' = s := by
  cases c with
  | false =>
    show EStateM.Result.ok () s = .ok u s' ↔ _
    simp [eq_comm]
  | true =>
    show EStateM.Result.error (PublishError.injected name) s = .ok u s' ↔ _
    simp

theorem refuseDestination_eq_ok {staging : RecordingStaging} {u : Unit} :
    refuseDestination staging s = .ok u s' ↔
      OrdMap.find? staging.destinationName s.root = none ∧ s' = s := by
  show liftCheck _ s = .ok u s' ↔ _
  rw [liftCheck_eq_ok, require_eq_ok, Option.isNone_iff_eq_none]

theorem stagingNode_eq_ok {node : FsNode} :
    stagingNode s = .ok node s' ↔ OrdMap.find? s.stagingName s.root = some node ∧ s' = s := by
  show liftCheck _ s = .ok node s' ↔ _
  rw [liftCheck_eq_ok, orError_eq_ok]

def Holds (s : PublishState) (es : List (String × FsNode)) (p : Bool) : Prop :=
  OrdMap.find? s.stagingName s.root = some (.dir es p)

/-- Only the staging directory changed. -/
structure OnlyStaging (s s' : PublishState) : Prop where
  name : s'.stagingName = s.stagingName
  others : ∀ name, name ≠ s.stagingName → OrdMap.find? name s'.root = OrdMap.find? name s.root

theorem OnlyStaging.refl (s : PublishState) : OnlyStaging s s := ⟨rfl, fun _ _ => rfl⟩

theorem OnlyStaging.trans {s'' : PublishState} (h : OnlyStaging s s') (h' : OnlyStaging s' s'') :
    OnlyStaging s s'' :=
  ⟨h'.name.trans h.name, fun name hne => (h'.others name (h.name ▸ hne)).trans (h.others name hne)⟩

structure Touches (s s' : PublishState) : Prop where
  only : OnlyStaging s s'
  same : ∀ {es' p}, Holds s' es' p → ∃ es, Holds s es p ∧ SameMembers es es'

theorem Touches.refl (s : PublishState) : Touches s s :=
  ⟨.refl s, fun h => ⟨_, h, fun _ _ _ => rfl⟩⟩

theorem Touches.trans {s'' : PublishState} (h : Touches s s') (h' : Touches s' s'') : Touches s s'' := by
  refine ⟨h.only.trans h'.only, fun hholds => ?_⟩
  obtain ⟨es', hholds', hsame'⟩ := h'.same hholds
  obtain ⟨es, hholds'', hsame⟩ := h.same hholds'
  exact ⟨es, hholds'', fun name hm ho => (hsame name hm ho).trans (hsame' name hm ho)⟩

def Manifested (s : PublishState) (bytes : List UInt8) : Prop :=
  ∀ es p, Holds s es p → OrdMap.find? manifestMember es = some (.file bytes true)

theorem modifyStaging_run (f : List (String × FsNode) → List (String × FsNode)) (s : PublishState) :
    ∃ s', modifyStaging f s = .ok () s' ∧ OnlyStaging s s' ∧
      ∀ {es p}, Holds s' es p → ∃ es', Holds s es' p ∧ es = f es' := by
  refine ⟨_, rfl, ?_, ?_⟩
  · beta_reduce
    split
    · next es p hfind => exact ⟨rfl, fun name hne => OrdMap.find?_insert_ne hne _ _⟩
    · exact .refl s
  · intro es p hholds
    beta_reduce at hholds
    split at hholds
    · next es' p' hfind =>
      have hself : OrdMap.find? s.stagingName
          (OrdMap.insert s.stagingName (FsNode.dir (f es') p') s.root) = some (.dir es p) := hholds
      rw [OrdMap.find?_insert_self] at hself
      cases hself
      exact ⟨es', hfind, rfl⟩
    · next hnone => exact absurd hholds (hnone es p)

theorem putManifest_eq_ok {bytes : List UInt8} {u : Unit} (h : putManifest bytes s = .ok u s') :
    Touches s s' ∧ Manifested s' bytes := by
  obtain ⟨t, hrun, honly, hback⟩ := modifyStaging_run (OrdMap.insert manifestMember (.file bytes true)) s
  rw [putManifest, hrun] at h
  cases h
  refine ⟨⟨honly, fun hholds => ?_⟩, fun es p hholds => ?_⟩
  · obtain ⟨es', hes', rfl⟩ := hback hholds
    exact ⟨es', hes', fun name hm _ => (OrdMap.find?_insert_ne hm _ _).symm⟩
  · obtain ⟨es', -, rfl⟩ := hback hholds
    exact OrdMap.find?_insert_self _ _ _

theorem writeManifest_eq_ok {io : Io} {bytes : List UInt8} {u : Unit}
    (h : writeManifest io .none bytes s = .ok u s') : Touches s s' ∧ Manifested s' bytes := by
  unfold writeManifest at h
  simp only [bind_run_eq_ok, stagingNode_eq_ok, step_eq_ok, liftCheck_eq_ok, injectIf_eq_ok] at h
  obtain ⟨node, _, ⟨_, rfl⟩, _, _, ⟨_, rfl⟩, _, _, ⟨_, rfl⟩, _, t, hput, _, _, ⟨_, rfl⟩, h⟩ := h
  rw [if_neg (by decide)] at h
  simp only [bind_run_eq_ok, injectIf_eq_ok] at h
  obtain ⟨_, _, ⟨_, rfl⟩, h⟩ := h
  cases hwrite : io.writeManifest with
  | some failed =>
    rw [hwrite] at h
    simp only [bind_run_eq_ok] at h
    obtain ⟨_, _, _, _, _, hthrow, _⟩ := h
    cases hthrow
  | none =>
    rw [hwrite] at h
    simp only [bind_run_eq_ok, injectIf_eq_ok, step_eq_ok] at h
    obtain ⟨_, t', hput', _, _, ⟨_, rfl⟩, _, rfl⟩ := h
    obtain ⟨htouches, hmanifested⟩ := putManifest_eq_ok hput'
    exact ⟨(putManifest_eq_ok hput).1.trans htouches, hmanifested⟩

theorem removeOwner_eq_ok {io : Io} {u : Unit} (h : removeOwner io s = .ok u s') :
    Touches s s' ∧ ∀ bytes, Manifested s bytes → Manifested s' bytes := by
  have hremoved : ∀ {s''}, (step io.removeOwner >>= fun _ => modifyStaging (OrdMap.erase recoveryOwnerMember)) s =
      .ok u s'' → Touches s s'' ∧ ∀ bytes, Manifested s bytes → Manifested s'' bytes := by
    intro s'' hrun
    simp only [bind_run_eq_ok, step_eq_ok] at hrun
    obtain ⟨-, _, ⟨-, rfl⟩, hrun⟩ := hrun
    obtain ⟨t, hmodify, honly, hback⟩ := modifyStaging_run (OrdMap.erase recoveryOwnerMember) _
    rw [hmodify] at hrun
    cases hrun
    refine ⟨⟨honly, fun hholds => ?_⟩, fun bytes hmanifested es p hholds => ?_⟩
    · obtain ⟨es', hes', rfl⟩ := hback hholds
      exact ⟨es', hes', fun name _ ho => (OrdMap.find?_erase_ne ho _).symm⟩
    · obtain ⟨es', hes', rfl⟩ := hback hholds
      rw [OrdMap.find?_erase_ne (by decide)]
      exact hmanifested es' p hes'
  unfold removeOwner at h
  simp only [bind_run_eq_ok, stagingNode_eq_ok] at h
  obtain ⟨node, t, ⟨-, rfl⟩, h⟩ := h
  cases hchild : node.child recoveryOwnerMember with
  | none =>
    rw [hchild] at h
    cases h
    exact ⟨.refl _, fun _ hmanifested => hmanifested⟩
  | some owner =>
    rw [hchild] at h
    cases owner with
    | dir es p => cases h
    | file | symlink | special => exact hremoved h

theorem renameStaging_eq_ok {name : String} {node : FsNode} {u : Unit}
    (hnode : OrdMap.find? s.stagingName s.root = some node) (h : renameStaging name s = .ok u s') :
    OrdMap.find? name s'.root = some node := by
  have hrun : renameStaging name s =
      .ok () ⟨OrdMap.insert name node (OrdMap.erase s.stagingName s.root), name⟩ := by
    unfold renameStaging
    show EStateM.Result.ok () _ = _
    beta_reduce
    rw [hnode]
  rw [hrun] at h
  cases h
  exact OrdMap.find?_insert_self _ _ _

end steps

/-! ## What a publication leaves behind -/

section published
variable (env : Env) (registry : EventContractRegistry) (staging : RecordingStaging)

/-- The manifest that the staged members and the input lead to. -/
def stagedManifest (node : FsNode) (input : RecordingBundleInput) : PublishCheck Manifest := do
  let snapshots ← checkMembers env staging (staging.outputRoot.join staging.stagingName) node input
  let validated ← validateRecording env registry node input.validation
  buildManifest input registry validated snapshots

/-- The bundle holds the members that were staged, and the manifest. -/
structure Bundled (input : RecordingBundleInput) (manifest : Manifest) (staged final : FsNode) : Prop where
  built : stagedManifest env registry staging staged input = .ok manifest
  layout : validateFinalLayout (staging.outputRoot.join staging.stagingName) final input.validation.request = .ok ()
  members : ∃ es es' p, staged = .dir es p ∧ final = .dir es' p ∧ SameMembers es es' ∧
    OrdMap.find? manifestMember es' = some (.file (utf8 manifest.text) true)

variable {env registry staging} {io : Io} {input : RecordingBundleInput} {s s' : PublishState}
  {published : PublishedRecording}

theorem tryPublish_eq_ok (h : tryPublish env registry staging io .none input s = .ok published s') :
    published.bundlePath = staging.outputRoot.join staging.destinationName ∧
      published.manifestSha256 = env.sha256 (utf8 published.manifest.text) ∧
      ∃ staged final, OrdMap.find? s.stagingName s.root = some staged ∧
        OrdMap.find? staging.destinationName s'.root = some final ∧
        Bundled env registry staging input published.manifest staged final := by
  unfold tryPublish at h
  simp only [bind_run_eq_ok, stagingNode_eq_ok, liftCheck_eq_ok, refuseDestination_eq_ok, step_eq_ok,
    injectIf_eq_ok] at h
  obtain ⟨staged, _, ⟨hstaged, rfl⟩, snapshots, _, ⟨hsnapshots, rfl⟩, _, _, ⟨_, rfl⟩, validated, _,
    ⟨hvalidated, rfl⟩, manifest, _, ⟨hmanifest, rfl⟩, h⟩ := h
  obtain ⟨_, t, hwrite, _, t', hremove, final, _, ⟨hfinal, rfl⟩, _, _, ⟨hlayout, rfl⟩, h⟩ := h
  obtain ⟨_, _, ⟨_, rfl⟩, _, _, ⟨_, rfl⟩, _, _, ⟨_, rfl⟩, _, _, ⟨_, rfl⟩, _, _, hrename, _, _, ⟨_, rfl⟩, h⟩ := h
  cases h
  obtain ⟨htouches, hmanifested⟩ := writeManifest_eq_ok hwrite
  obtain ⟨htouches', hkept⟩ := removeOwner_eq_ok hremove
  obtain ⟨es', p, rfl, -⟩ := isDir_of_layout hlayout
  obtain ⟨es, hholds, hsame⟩ := (htouches.trans htouches').same hfinal
  have hdir : staged = .dir es p := Option.some.inj (hstaged.symm.trans hholds)
  refine ⟨rfl, rfl, staged, _, hstaged, renameStaging_eq_ok hfinal hrename, ?_, hlayout, ?_⟩
  · simp only [stagedManifest, bind_eq_ok]
    exact ⟨snapshots, hsnapshots, validated, hvalidated, hmanifest⟩
  · exact ⟨es, es', p, hdir, rfl, hsame, hkept _ hmanifested es' p hfinal⟩

end published

/-! ## The verification of a bundle -/

section verified
variable {env : Env} {registry : EventContractRegistry} {staging : RecordingStaging} {base base' : FsPath}
  {input : RecordingBundleInput} {manifest : Manifest} {es es' : List (String × FsNode)} {p : Bool}

theorem length_le_of_readManifest {bytes : List UInt8} {read : Manifest × List UInt8}
    (hmember : OrdMap.find? manifestMember es = some (.file bytes true))
    (h : readManifest env base (.dir es p) = .ok read) : bytes.length ≤ maxManifestBytes := by
  have hstat : (FsNode.dir es p).stat? [manifestMember] = some (.file bytes true) := by
    simp [FsNode.stat?, hmember]
  rw [readManifest, hstat] at h
  simp only [bind_eq_ok, require_eq_ok, exists_const, orError_eq_ok, Option.some.injEq, exists_eq_left'] at h
  exact h.2.1

theorem readManifest_of_length_le {bytes : List UInt8}
    (hmember : OrdMap.find? manifestMember es = some (.file bytes true)) (hbytes : bytes = utf8 manifest.text)
    (hround : env.codec.RoundTrips manifest) (hversion : manifest.formatVersion = recordingFormatVersion)
    (hsize : bytes.length ≤ maxManifestBytes) : readManifest env base (.dir es p) = .ok (manifest, bytes) := by
  have hstat : (FsNode.dir es p).stat? [manifestMember] = some (.file bytes true) := by
    simp [FsNode.stat?, hmember]
  have hcomponents : (FsPath.new manifestMember).components = [manifestMember] := by decide
  have hopen : (FsNode.dir es p).openMember [manifestMember] = some bytes := by
    simp [FsNode.openMember, hmember]
  have hread : readBoundedRegularMember (.dir es p) manifestMember maxManifestBytes = .ok bytes := by
    simp only [readBoundedRegularMember, bind_eq_ok, require_eq_ok, exists_const, orError_eq_ok]
    exact ⟨by decide, bytes, by rw [hcomponents, hopen], hsize, rfl⟩
  have htext : Lib.fromUtf8 bytes = some manifest.text := by
    rw [hbytes, Lib.fromUtf8_utf8]
  rw [readManifest, hstat, hread]
  simp only [bind_eq_ok, require_eq_ok, exists_const, orError_eq_ok, Option.some.injEq, exists_eq_left']
  refine ⟨rfl, hsize, bytes, rfl, manifest.text, htext, .recording manifest, ?_, rfl⟩
  rw [hround.parseManifest hversion]
  rfl

theorem validateRecordingFile_terminal {decode : List UInt8 → Except String EventEnvelope}
    {sha256 : List UInt8 → String} {file : EventFile} {input : RecordingValidationInput}
    {validated : ValidatedRecording} (h : validateRecordingFile decode sha256 file registry input = .ok validated) :
    validated.terminal = input.terminal := by
  unfold validateRecordingFile at h
  simp only [bind_eq_ok, require_eq_ok, exists_const] at h
  obtain ⟨_, _, _, _, _, _, _, _, _, _, _, _, h⟩ := h
  rw [← Except.ok.inj h]

/-- What the checks on the staged members have found. -/
structure Checked (env : Env) (registry : EventContractRegistry) (base : FsPath) (input : RecordingBundleInput)
    (staged : FsNode) (manifest : Manifest) (initial terminal : List MemberDescriptor)
    (state : Option MemberDescriptor) (validated : ValidatedRecording) : Prop where
  identity : ensureIdentity input = .ok ()
  events : regularOwnedMember base staged eventsPath = .ok ()
  inputMovie : validateInputMovieMember env staged input.validation.request = .ok ()
  initialState : validateInitialStateMember env staged input.validation.request input.runtime = .ok ()
  initialSnapshots : validateInitialSnapshotMembers env base staged input.validation.request = .ok initial
  terminalSnapshots : validateTerminalSnapshotMembers env base staged input.validation.request = .ok terminal
  terminalState : validateTerminalStateMember env staged input.validation.request = .ok state
  recording : validateRecording env registry staged input.validation = .ok validated
  built : buildManifest input registry validated (initial ++ terminal ++ state.toList) = .ok manifest

theorem stagedManifest_eq_ok {staged : FsNode}
    (h : stagedManifest env registry staging staged input = .ok manifest) :
    ∃ initial terminal state validated, Checked env registry (staging.outputRoot.join staging.stagingName) input
      staged manifest initial terminal state validated := by
  simp only [stagedManifest, checkMembers, bind_eq_ok, require_eq_ok, exists_const] at h
  obtain ⟨_, ⟨-, _, hidentity, _, hevents, _, hmovie, _, hstate, initial, hinitial, terminal, hterminal, state,
    hlast, hall⟩, validated, hvalidated, hmanifest⟩ := h
  obtain rfl := Except.ok.inj hall
  exact ⟨initial, terminal, state, validated, hidentity, hevents, hmovie, hstate, hinitial, hterminal, hlast,
    hvalidated, hmanifest⟩

section checked
variable {staged : FsNode} {initial terminal : List MemberDescriptor} {state : Option MemberDescriptor}
  {validated : ValidatedRecording}

theorem Checked.byRole (h : Checked env registry base input staged manifest initial terminal state validated) :
    Staged input.validation.request initial terminal state where
  initialLength := (validateSnapshotMembers_eq_ok h.initialSnapshots).1
  initialRole := (validateSnapshotMembers_eq_ok h.initialSnapshots).2
  terminalLength := (validateSnapshotMembers_eq_ok h.terminalSnapshots).1
  terminalRole := (validateSnapshotMembers_eq_ok h.terminalSnapshots).2
  stateSome := (validateTerminalStateMember_eq_ok h.terminalState).1
  stateRole := (validateTerminalStateMember_eq_ok h.terminalState).2

theorem Checked.eventBytes (h : Checked env registry base input staged manifest initial terminal state validated) :
    ∃ bytes q, staged.stat? eventsPath = some (.file bytes q) ∧
      validateRecordingFile env.decodeEvent env.sha256 (.ofBytes bytes) registry input.validation = .ok validated := by
  have hrecording := h.recording
  unfold validateRecording at hrecording
  split at hrecording
  · next bytes q hstat => exact ⟨bytes, q, hstat, mapError_eq_ok.mp hrecording⟩
  · cases hrecording

theorem Checked.manifestFacts
    (h : Checked env registry base input staged manifest initial terminal state validated) :
    manifest.formatVersion = recordingFormatVersion ∧
      manifest.terminal.publication = .published ∧ manifest.request = input.validation.request ∧
      manifest.runtime = input.runtime ∧
      manifest.members = memberDescriptors input.validation.request validated.stream
        (initial ++ terminal ++ state.toList) ∧
      manifest.terminal.integrity = validated.integrity ∧ manifest.counters.events = validated.stream.records ∧
      manifest.counters.bytes = validated.stream.physicalBytes := by
  have hbuilt := h.built
  simp only [buildManifest, bind_eq_ok] at hbuilt
  obtain ⟨domains, -, hbuilt⟩ := hbuilt
  obtain rfl := Except.ok.inj hbuilt
  exact ⟨rfl, rfl, rfl, rfl, rfl, rfl, rfl, rfl⟩

theorem Checked.manifest_validation
    (h : Checked env registry base input staged manifest initial terminal state validated) :
    manifest.validation = input.validation.recorded validated := by
  obtain ⟨bytes, q, -, hfile⟩ := h.eventBytes
  have hterminal := validateRecordingFile_terminal hfile
  have hbuilt := h.built
  simp only [buildManifest, bind_eq_ok] at hbuilt
  obtain ⟨domains, -, hbuilt⟩ := hbuilt
  obtain rfl := Except.ok.inj hbuilt
  simp only [Manifest.validation, RecordingValidationInput.recorded, hterminal]

theorem Checked.manifest_identity
    (h : Checked env registry base input staged manifest initial terminal state validated) :
    ensureIdentity manifest.bundleInput = .ok () := by
  have hidentity := h.identity
  have hbuilt := h.built
  simp only [buildManifest, bind_eq_ok] at hbuilt
  obtain ⟨domains, -, hbuilt⟩ := hbuilt
  obtain rfl := Except.ok.inj hbuilt
  exact hidentity

theorem Checked.checkDescribed
    (h : Checked env registry base input (.dir es p) manifest initial terminal state validated)
    (hsame : SameMembers es es') :
    checkDescribed env base' (.dir es' p) manifest =
      .ok ⟨.events, eventsMember, validated.stream.sha256, validated.stream.physicalBytes,
        some validated.stream.records⟩ := by
  obtain ⟨-, -, hrequest, hruntime, hmembers, -⟩ := h.manifestFacts
  have hdescribed : ∀ role, manifest.described role =
      membersOf input.validation.request validated.stream initial terminal state role := by
    intro role
    rw [Manifest.described, hmembers]
    exact h.byRole.filter_memberDescriptors role
  unfold Bundle.checkDescribed
  simp only [bind_eq_ok, require_eq_ok, exists_const, orError_eq_ok, mapError_eq_ok, hrequest, hruntime]
  refine ⟨_, ?_, (), ?_, (), ?_, initial, ?_, terminal, ?_, state, ?_, ?_, ?_, ?_, ?_, ?_, rfl⟩
  · rw [Manifest.eventMember, hdescribed .events]
    rfl
  · rw [← validateInputMovieMember_same hsame]
    exact h.inputMovie
  · rw [← validateInitialStateMember_same hsame]
    exact h.initialState
  · exact validateSnapshotMembers_same hsame (by simp [Bundle.initialSnapshots]) h.initialSnapshots
  · exact validateSnapshotMembers_same hsame (by simp [Bundle.terminalSnapshots]) h.terminalSnapshots
  · rw [← validateTerminalStateMember_same hsame]
    exact h.terminalState
  · intro identity hidentity
    rw [hdescribed .inputMovie, membersOf, Option.mem_def.mp hidentity]
    rfl
  · intro receipt hreceipt
    have hfilter := hdescribed .initialState
    rw [membersOf, Option.mem_def.mp hreceipt] at hfilter
    rw [stateDescriptorMatches, beq_iff_eq]
    exact hfilter
  · exact hdescribed .terminalSnapshot
  · exact hdescribed .initialSnapshot
  · exact hdescribed .terminalState

theorem Checked.validateMember
    (h : Checked env registry base input (.dir es p) manifest initial terminal state validated)
    (hsame : SameMembers es es') (hdir : ∀ node ∈ OrdMap.find? "events" es', node.isDir = true) :
    validateMember env registry (.dir es' p) manifest =
      .ok ⟨validated.stream, manifest.terminal.integrity, manifest.validation.terminal⟩ := by
  obtain ⟨-, -, -, -, -, hintegrity, -⟩ := h.manifestFacts
  obtain ⟨bytes, q, hstat, hfile⟩ := h.eventBytes
  have hstat' : (FsNode.dir es' p).stat? eventsPath = some (.file bytes q) := by
    rw [← hstat]
    exact (stat?_same hsame (by decide) (by decide) _).symm
  unfold Bundle.validateMember
  simp only [bind_eq_ok, orError_eq_ok, mapError_eq_ok]
  refine ⟨bytes, openMember_of_stat? hdir hstat', ?_⟩
  rw [h.manifest_validation, hintegrity]
  exact validateRecordingFile_recorded hfile

end checked

theorem Bundled.validateMember {staged final : FsNode}
    (h : Bundled env registry staging input manifest staged final) :
    ∃ stream, validateMember env registry final manifest =
      .ok ⟨stream, manifest.terminal.integrity, manifest.validation.terminal⟩ := by
  obtain ⟨es, es', p, rfl, rfl, hsame, -⟩ := h.members
  obtain ⟨initial, terminal, state, validated, hchecked⟩ := stagedManifest_eq_ok h.built
  obtain ⟨_, _, hfinal, hdir⟩ := isDir_of_layout h.layout
  cases hfinal
  exact ⟨validated.stream, hchecked.validateMember hsame hdir⟩

theorem Bundled.length_le_of_verify {staged final : FsNode} {verified : VerifiedPublishedRecording}
    (h : Bundled env registry staging input manifest staged final)
    (hverified : verifyPublishedRecording env registry base (some final) = .ok verified) :
    (utf8 manifest.text).length ≤ maxManifestBytes := by
  obtain ⟨es, es', p, -, rfl, -, hmember⟩ := h.members
  unfold verifyPublishedRecording verifyPublishedRecordingChecked at hverified
  simp only [bind_eq_ok, require_eq_ok, exists_const, orError_eq_ok, Option.some.injEq,
    exists_eq_left'] at hverified
  obtain ⟨-, read, hread, -⟩ := hverified
  exact length_le_of_readManifest hmember hread

theorem Bundled.verify_eq_ok_iff {staged final : FsNode}
    (h : Bundled env registry staging input manifest staged final) (hround : env.codec.RoundTrips manifest) :
    verifyPublishedRecording env registry base (some final) =
        .ok ⟨base, env.sha256 (utf8 manifest.text), manifest⟩ ↔
      (utf8 manifest.text).length ≤ maxManifestBytes := by
  obtain ⟨es, es', p, rfl, rfl, hsame, hmember⟩ := h.members
  obtain ⟨initial, terminal, state, validated, hchecked⟩ := stagedManifest_eq_ok h.built
  obtain ⟨_, _, hfinal, hdir⟩ := isDir_of_layout h.layout
  cases hfinal
  obtain ⟨hversion, hpublication, hrequest, -, hmembers, hintegrity, hevents, hbytes⟩ :=
    hchecked.manifestFacts
  constructor
  · exact h.length_le_of_verify
  · intro hsize
    unfold verifyPublishedRecording verifyPublishedRecordingChecked
    simp only [bind_eq_ok, require_eq_ok, exists_const, orError_eq_ok, mapError_eq_ok, Option.some.injEq,
      exists_eq_left']
    refine ⟨rfl, _, readManifest_of_length_le hmember rfl hround hversion hsize, trivial,
      ⟨hversion, trivial, hpublication, ?_⟩, (), hchecked.manifest_identity, (), ?_, _,
      hchecked.checkDescribed hsame, (), regularOwnedMember_same hsame hchecked.events, _,
      hchecked.validateMember hsame hdir, ⟨rfl, rfl, rfl, rfl, hevents, hbytes⟩, rfl⟩
    · rw [hmembers, hrequest]
      exact hchecked.byRole.length_memberDescriptors
    · rw [hrequest]
      exact validateFinalLayout_base h.layout

end verified

end Emucap.Bundle
