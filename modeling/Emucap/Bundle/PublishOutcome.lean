import Emucap.Bundle.PublishVerify

/-!
# How a publication ends

A publication that succeeds is verified just where the manifest is not longer than the verification reads. Where it
fails, the directory has the staging name, or the destination's where nothing stood there before.
-/

namespace Emucap.Bundle

open Emucap.Lib Emucap.Live

/-! ## The destination during a publication -/

section destination
variable (staging : RecordingStaging) (root : OutputRoot)

/-- The staging directory has its own name, and the destination is as it was. -/
structure Unpublished (s : PublishState) : Prop where
  name : s.stagingName = staging.stagingName
  destination : OrdMap.find? staging.destinationName s.root = OrdMap.find? staging.destinationName root

def Kept (s : PublishState) : Prop :=
  Unpublished staging root s ∨
    s.stagingName = staging.destinationName ∧ OrdMap.find? staging.destinationName root = none

variable {staging root}

theorem destinationName_ne_stagingName : staging.destinationName ≠ staging.stagingName := by
  intro h
  have hlength := congrArg (fun name : String => name.toList.length) h
  simp only [RecordingStaging.destinationName, RecordingStaging.stagingName, String.toList_append,
    List.length_append, String.reduceToList, List.length_cons, List.length_nil] at hlength
  omega

theorem destinationName_ne_quarantineName (ulid : String) :
    staging.destinationName ≠ staging.quarantineName ulid := by
  intro h
  have hlength := congrArg (fun name : String => name.toList.length) h
  simp only [RecordingStaging.destinationName, RecordingStaging.quarantineName, String.toList_append,
    List.length_append, String.reduceToList, List.length_cons, List.length_nil] at hlength
  omega

end destination

/-! ## Steps that only read -/

section reads
variable {α : Type}

theorem reads_liftCheck (c : PublishCheck α) : Reads (liftCheck c) := by
  intro s
  cases c with
  | ok a => exact .inl ⟨a, rfl⟩
  | error e => exact .inr ⟨e, rfl⟩

theorem reads_step (fault : Option IoError) : Reads (step fault) := by
  intro s
  cases fault with
  | none => exact .inl ⟨(), rfl⟩
  | some e => exact .inr ⟨.io e, rfl⟩

theorem reads_injectIf (c : Bool) (name : String) : Reads (injectIf c name) := by
  intro s
  cases c with
  | false => exact .inl ⟨(), rfl⟩
  | true => exact .inr ⟨.injected name, rfl⟩

theorem reads_refuseDestination (staging : RecordingStaging) : Reads (refuseDestination staging) :=
  fun s => reads_liftCheck _ s

theorem reads_stagingNode : Reads stagingNode := fun s => reads_liftCheck _ s

end reads

/-! ## The steps that write -/

section leaves
variable {staging : RecordingStaging} {root : OutputRoot} {io : Io} {α β : Type}

theorem leaves_read {x : PublishM α} {f : α → PublishM β} {Q : PublishState → Prop} (hx : Reads x)
    (hf : ∀ a, Leaves (Kept staging root) (Unpublished staging root) (f a) Q) :
    Leaves (Kept staging root) (Unpublished staging root) (x >>= f) Q :=
  (hx.leaves fun _ h => .inl h).bind hf

theorem leaves_modifyStaging (f : List (String × FsNode) → List (String × FsNode)) :
    Leaves (Kept staging root) (Unpublished staging root) (modifyStaging f) (Unpublished staging root) := by
  intro s hs
  obtain ⟨s', hrun, honly, -⟩ := modifyStaging_run f s
  rw [hrun]
  refine ⟨fun u t h => ?_, fun e t h => (by cases h)⟩
  cases h
  refine ⟨honly.name.trans hs.name, (honly.others _ ?_).trans hs.destination⟩
  rw [hs.name]
  exact destinationName_ne_stagingName

theorem leaves_writeManifest (fault : PublishFault) (bytes : List UInt8) :
    Leaves (Kept staging root) (Unpublished staging root) (writeManifest io fault bytes)
      (Unpublished staging root) := by
  unfold writeManifest
  refine leaves_read reads_stagingNode fun node => ?_
  refine leaves_read (reads_step _) fun _ => ?_
  refine leaves_read (reads_liftCheck _) fun _ => ?_
  refine (leaves_modifyStaging _).bind fun _ => ?_
  refine leaves_read (reads_injectIf _ _) fun _ => ?_
  have hend : Leaves (Kept staging root) (Unpublished staging root) (do
      injectIf (fault == .manifestSync) "manifest_sync"
      step io.syncManifest) (Unpublished staging root) :=
    leaves_read (reads_injectIf _ _) fun _ => (reads_step _).leaves fun _ h => .inl h
  by_cases hshort : fault = .manifestShortWrite
  on_goal 1 =>
    rw [if_pos hshort]
    refine (leaves_modifyStaging _).bind fun _ => ?_
  on_goal 2 => rw [if_neg hshort]
  -- a short write is injected after the half that it leaves
  all_goals
    refine leaves_read (reads_injectIf _ _) fun _ => ?_
    cases io.writeManifest with
    | some failed =>
      refine (leaves_modifyStaging _).bind fun _ => ?_
      exact leaves_read (fun s => .inr ⟨.io failed.1, rfl⟩) fun _ => hend
    | none => exact (leaves_modifyStaging _).bind fun _ => hend

theorem leaves_removeOwner :
    Leaves (Kept staging root) (Unpublished staging root) (removeOwner io) (Unpublished staging root) := by
  have hremove : Leaves (Kept staging root) (Unpublished staging root) (do
      step io.removeOwner
      modifyStaging (OrdMap.erase recoveryOwnerMember)) (Unpublished staging root) :=
    leaves_read (reads_step _) fun _ => leaves_modifyStaging _
  unfold removeOwner
  refine leaves_read reads_stagingNode fun node => ?_
  cases node.child recoveryOwnerMember with
  | none => exact Reads.leaves (fun s => .inl ⟨(), rfl⟩) fun _ h => .inl h
  | some owner =>
    cases owner with
    | dir entries isPrivate =>
      exact Reads.leaves (fun s => .inr ⟨.io ⟨.other, "is a directory"⟩, rfl⟩) fun _ h => .inl h
    | file | symlink | special => exact hremove

theorem leaves_renameStaging :
    Leaves (Kept staging root)
      (fun s => Unpublished staging root s ∧ OrdMap.find? staging.destinationName s.root = none)
      (renameStaging staging.destinationName) (Kept staging root) := by
  refine leaves_modify fun s hs => ?_
  obtain ⟨hunpublished, hnone⟩ := hs
  split
  · exact .inr ⟨rfl, hunpublished.destination.symm.trans hnone⟩
  · exact .inl hunpublished

variable {env : Env} {registry : EventContractRegistry}

theorem leaves_tryPublish (fault : PublishFault) (input : RecordingBundleInput) :
    Leaves (Kept staging root) (Unpublished staging root) (tryPublish env registry staging io fault input)
      (Kept staging root) := by
  have hkept : ∀ s, Unpublished staging root s ∧ OrdMap.find? staging.destinationName s.root = none →
      Kept staging root s := fun s hs => .inl hs.1
  have hrefuse : Leaves (Kept staging root) (Unpublished staging root) (refuseDestination staging)
      (fun s => Unpublished staging root s ∧ OrdMap.find? staging.destinationName s.root = none) := by
    intro s hs
    obtain ⟨-, herror⟩ := (reads_refuseDestination staging).leaves (fun _ h => Or.inl h) s hs
    refine ⟨fun u t hrun => ?_, herror⟩
    obtain ⟨hnone, rfl⟩ := refuseDestination_eq_ok.mp hrun
    exact ⟨hs, hnone⟩
  unfold tryPublish
  refine leaves_read reads_stagingNode fun node => ?_
  refine leaves_read (reads_liftCheck _) fun snapshots => ?_
  refine leaves_read (reads_refuseDestination _) fun _ => ?_
  refine leaves_read (reads_liftCheck _) fun validated => ?_
  refine leaves_read (reads_liftCheck _) fun manifest => ?_
  refine (leaves_writeManifest fault _).bind fun _ => ?_
  refine (leaves_removeOwner).bind fun _ => ?_
  refine leaves_read reads_stagingNode fun final => ?_
  refine leaves_read (reads_liftCheck _) fun _ => ?_
  refine leaves_read (reads_step _) fun _ => ?_
  refine hrefuse.bind fun _ => ?_
  refine ((reads_injectIf _ _).leaves hkept).bind fun _ => ?_
  refine ((reads_step _).leaves hkept).bind fun _ => ?_
  refine (leaves_renameStaging).bind fun _ => ?_
  refine ((reads_step _).leaves fun _ h => h).bind fun _ => ?_
  exact Reads.leaves (fun s => .inl ⟨_, rfl⟩) fun _ h => h

def Restored (staging : RecordingStaging) (root : OutputRoot) (s : PublishState) : Prop :=
  OrdMap.find? staging.destinationName s.root = OrdMap.find? staging.destinationName root

theorem restored_renameStaging (ulid : String) :
    Leaves (Restored staging root) (Kept staging root) (renameStaging (staging.quarantineName ulid))
      (Restored staging root) := by
  refine leaves_modify fun s hs => ?_
  have hquarantine : staging.destinationName ≠ staging.quarantineName ulid :=
    destinationName_ne_quarantineName ulid
  split
  · next node hnode =>
    show OrdMap.find? _ (OrdMap.insert _ node _) = _
    rw [OrdMap.find?_insert_ne hquarantine]
    rcases hs with hunpublished | ⟨hname, hnone⟩
    · rw [hunpublished.name, OrdMap.find?_erase_ne destinationName_ne_stagingName]
      exact hunpublished.destination
    · rw [hname, OrdMap.find?_erase_self, hnone]
  · next hnode =>
    rcases hs with hunpublished | ⟨hname, hnone⟩
    · exact hunpublished.destination
    · rw [hname] at hnode
      exact hnode.trans hnone.symm

theorem leaves_quarantine (hrename : io.quarantineRename = none) (ulid : String) :
    Leaves (Restored staging root) (Kept staging root) (quarantine staging io ulid) (Restored staging root) := by
  have hstep : Leaves (Restored staging root) (Kept staging root) (step io.quarantineRename)
      (Kept staging root) := by
    rw [hrename]
    refine fun s hs => ⟨fun u t h => ?_, fun e t h => (by cases h)⟩
    cases h
    exact hs
  unfold quarantine
  refine hstep.bind fun _ => ?_
  refine (restored_renameStaging ulid).bind fun _ => ?_
  refine ((reads_step _).leaves fun _ h => h).bind fun _ => ?_
  exact Reads.leaves (fun s => .inl ⟨_, rfl⟩) fun _ h => h

theorem publishWithFault_eq_error {ulid : String} {fault : PublishFault} {input : RecordingBundleInput}
    {e : PublishError} {root' : OutputRoot}
    (h : publishWithFault env registry staging io ulid fault input root = (.error e, root'))
    (hrename : io.quarantineRename = none) :
    OrdMap.find? staging.destinationName root' = OrdMap.find? staging.destinationName root := by
  unfold publishWithFault at h
  cases hrun : tryPublish env registry staging io fault input ⟨root, staging.stagingName⟩ with
  | ok published s =>
    rw [hrun] at h
    cases h
  | error e' s =>
    have hkept : Kept staging root s := (leaves_tryPublish fault input _ ⟨rfl, rfl⟩).2 e' s hrun
    obtain ⟨hok, herror⟩ := leaves_quarantine hrename ulid s hkept
    rw [hrun] at h
    cases hquarantine : quarantine staging io ulid s with
    | ok path t =>
      simp only [hquarantine] at h
      cases h
      exact hok path t hquarantine
    | error e'' t =>
      simp only [hquarantine] at h
      cases h
      exact herror e'' t hquarantine

theorem publish_eq_ok {ulid : String} {input : RecordingBundleInput} {published : PublishedRecording}
    {root' : OutputRoot} (h : publish env registry staging io ulid input root = (.ok published, root')) :
    published.bundlePath = staging.outputRoot.join staging.destinationName ∧
      published.manifestSha256 = env.sha256 (utf8 published.manifest.text) ∧
      ∃ staged final, OrdMap.find? staging.stagingName root = some staged ∧
        OrdMap.find? staging.destinationName root' = some final ∧
        Bundled env registry staging input published.manifest staged final := by
  unfold publish publishWithFault at h
  cases hrun : tryPublish env registry staging io .none input ⟨root, staging.stagingName⟩ with
  | ok published' s =>
    rw [hrun] at h
    cases h
    exact tryPublish_eq_ok hrun
  | error e s =>
    rw [hrun] at h
    cases hquarantine : quarantine staging io ulid s with
    | ok path t =>
      simp only [hquarantine] at h
      cases h
    | error e' t =>
      simp only [hquarantine] at h
      cases h

end leaves

/-! ## Publishing and verifying -/

section verified
variable (env : Env) (registry : EventContractRegistry) (staging : RecordingStaging)

def ManifestFits (root : OutputRoot) (input : RecordingBundleInput) : Prop :=
  ∀ staged ∈ OrdMap.find? staging.stagingName root,
    ∀ manifest, stagedManifest env registry staging staged input = .ok manifest →
      (utf8 manifest.text).length ≤ maxManifestBytes

/-- A published bundle is verified, with the manifest, the digest and the integrity of the publication, just where
the manifest fits; its event file is validated to the integrity of the manifest in any case. A publication that
fails leaves the destination as it was. -/
theorem publish_verify (io : Io) (ulid : String) (input : RecordingBundleInput) (root root' : OutputRoot) :
    (∀ published, publish env registry staging io ulid input root = (.ok published, root') →
      env.codec.RoundTrips published.manifest →
        (verifyPublishedRecording env registry published.bundlePath
            (OrdMap.find? staging.destinationName root') =
            .ok ⟨published.bundlePath, published.manifestSha256, published.manifest⟩ ↔
          ManifestFits env registry staging root input) ∧
        ∃ final stream, OrdMap.find? staging.destinationName root' = some final ∧
          validateMember env registry final published.manifest =
            .ok ⟨stream, published.manifest.terminal.integrity, published.manifest.validation.terminal⟩) ∧
    ∀ e, publish env registry staging io ulid input root = (.error e, root') → io.quarantineRename = none →
      OrdMap.find? staging.destinationName root' = OrdMap.find? staging.destinationName root := by
  refine ⟨fun published h hround => ?_, fun e h hrename => publishWithFault_eq_error h hrename⟩
  obtain ⟨hpath, hsha, staged, final, hstaged, hfinal, hbundled⟩ := publish_eq_ok h
  rw [hfinal, hsha]
  refine ⟨(hbundled.verify_eq_ok_iff hround).trans ⟨fun hsize => ?_, fun hfits => ?_⟩, ?_⟩
  · intro staged' hstaged' manifest hmanifest
    rw [hstaged] at hstaged'
    cases hstaged'
    rw [hbundled.built] at hmanifest
    cases hmanifest
    exact hsize
  · exact hfits staged hstaged published.manifest hbundled.built
  · obtain ⟨stream, hvalid⟩ := hbundled.validateMember
    exact ⟨final, stream, rfl, hvalid⟩

end verified

/-! ## A recording that failed -/

section failed

def failedStaging : RecordingStaging where
  outputRoot := FsPath.new "/srv/captures"
  captureId := "cap-01hzy8"
  ulid := "01j0a6v2w5"
  validId := by decide

def failedEvents : FsNode := .dir [("events", .dir [("segment-000.ndjson", .file [] true)] true)] true

def failedRoot : OutputRoot := [(failedStaging.stagingName, failedEvents)]

/-- A recording of one frame that the adapter gave up before the frame began. -/
def failedInput (reason : String) : RecordingBundleInput where
  captureId := "cap-01hzy8"
  createdAtUnixMs := 1719792000000
  requestDigestSha256 := "5feceb66ffc86f38d952786c6d696c79c2dbc239dd4e91b46729d73a27fb57e9"
  runtime :=
    { system := "snes", adapterId := "mesen2", serverBuild := "0.9.0", adapterBuild := "0.9.0"
      emulatorId := "mesen2", emulatorBuild := "2.1.1", emulatorUpstreamRevision := "2.1.1"
      emulatorPatchsetSha256 := "6b86b273ff34fce19d6b804eff5a3f5747ada4eaa22f1d49c01e52ddb7875b4b"
      launchId := "launch-1"
      capabilityRevision := "d4735e3a265e16eee03f59718b9b5d03019c07d8b6c51f90da3a666eec13ab35"
      content := ⟨some "da39a3ee5e6b4b0d3255bfef95601890afd80709", none, 1024, none⟩ }
  eventOrder := none
  validation := { boundaryInput with
    fEnd := 7
    terminal := { boundaryInput.terminal with
      operationOutcome := .failed
      executionOutcome := .adapterError
      claimedIntegrity := .unverifiable
      finalFrame := 7
      counters := ⟨0, 0, 0, 0⟩
      reason := some reason } }

def failedDigest (manifestDigest : String) (bytes : List UInt8) : String :=
  if bytes = [] then "e3b0c44298fc1c149afbf4c8996fb92427ae41e4649b934ca495991b7852b855" else manifestDigest

def readBack (built : PublishCheck Manifest) : ManifestCodec where
  version _ := .ok recordingFormatVersion
  legacy _ := .error "missing field"
  recording text :=
    match built with
    | .ok manifest => if text = manifest.text then .ok manifest else .error "expected value"
    | .error _ => .error "expected value"

def plainEnv (manifestDigest : String) : Env where
  decodeEvent _ := .error "expected value"
  decodeRow _ := .error "expected value"
  parseJson _ := .error "expected value"
  floatText _ := []
  sha256 := failedDigest manifestDigest
  codec := readBack (.error (.io notFound))

def failedEnv (manifestDigest reason : String) : Env :=
  { plainEnv manifestDigest with
    codec := readBack (stagedManifest (plainEnv manifestDigest) frameBoundaryRegistry failedStaging failedEvents
      (failedInput reason)) }

def faultless : Io := ⟨none, none, none, none, none, none, none, none, none⟩

section codec
variable (env : Env) (codec : ManifestCodec)

theorem snapshotMembers_codec (root : FsNode) (family : SnapshotFamily) (labels : List String) (total : ℕ)
    (snapshots : List SnapshotRequest) :
    snapshotMembers { env with codec := codec } root family labels total snapshots =
      snapshotMembers env root family labels total snapshots := by
  induction snapshots generalizing labels total with
  | nil => rfl
  | cons snapshot rest ih => simp only [snapshotMembers, ih]

theorem stagedManifest_codec (registry : EventContractRegistry) (staging : RecordingStaging) (staged : FsNode)
    (input : RecordingBundleInput) :
    stagedManifest { env with codec := codec } registry staging staged input =
      stagedManifest env registry staging staged input := by
  simp only [stagedManifest, checkMembers, validateInitialSnapshotMembers, validateTerminalSnapshotMembers,
    validateSnapshotMembers, snapshotMembers_codec]
  rfl

end codec

theorem failedEnv_roundTrips {manifestDigest reason ulid : String} {io : Io} {published : PublishedRecording}
    {root' : OutputRoot}
    (h : publish (failedEnv manifestDigest reason) frameBoundaryRegistry failedStaging io ulid (failedInput reason)
      failedRoot = (.ok published, root')) :
    (failedEnv manifestDigest reason).codec.RoundTrips published.manifest := by
  obtain ⟨-, -, staged, final, hstaged, -, hbundled⟩ := publish_eq_ok h
  obtain rfl : staged = failedEvents := by
    rw [failedRoot, OrdMap.find?_cons, if_pos rfl] at hstaged
    exact (Option.some.inj hstaged).symm
  have hbuilt := hbundled.built
  rw [failedEnv, stagedManifest_codec] at hbuilt
  obtain ⟨initial, terminal, state, validated, hchecked⟩ := stagedManifest_eq_ok hbuilt
  constructor
  · rw [hchecked.manifestFacts.1]
    rfl
  · simp only [failedEnv, readBack, hbuilt, if_true]

theorem exists_of_isOk {ε α σ : Type} {run : Except ε α × σ} (h : run.1.isOk = true) :
    ∃ a s, run = (.ok a, s) := by
  obtain ⟨result, s⟩ := run
  cases result with
  | ok a => exact ⟨a, s, rfl⟩
  | error e => cases h

theorem length_reason_lt {manifest : Manifest} {reason : String} (h : manifest.terminal.reason = some reason) :
    reason.toList.length < (utf8 manifest.text).length := by
  have hquote := Json.length_le_quote reason
  have hfield : ("reason", Json.str reason) ∈ [("reason", nullable Json.str manifest.terminal.reason)] := by
    simp [h, nullable]
  have hreason : (Json.quote reason).length ≤ (manifest.terminal.toJson.pretty (fun _ => []) 1).length :=
    Json.length_le_pretty_obj _ (List.mem_append_left _ (List.mem_append_right _ hfield))
  have hterminal : (manifest.terminal.toJson.pretty (fun _ => []) 1).length ≤
      (manifest.toJson.pretty (fun _ => []) 0).length := by
    have hmem : ("terminal", manifest.terminal.toJson) ∈ [("terminal", manifest.terminal.toJson)] := by simp
    exact Json.length_le_pretty_obj _ (List.mem_append_right [_, _, _, _, _, _, _, _] (List.mem_append_left _ hmem))
  have htext := length_utf8_bounds (manifest.toJson.pretty (fun _ => []) 0 ++ ['\n'])
  rw [List.length_append, List.length_singleton] at htext
  rw [Manifest.text]
  omega

theorem Bundled.reason {env : Env} {registry : EventContractRegistry} {staging : RecordingStaging}
    {input : RecordingBundleInput} {manifest : Manifest} {staged final : FsNode}
    (h : Bundled env registry staging input manifest staged final) :
    manifest.terminal.reason = input.validation.terminal.reason := by
  obtain ⟨initial, terminal, state, validated, hchecked⟩ := stagedManifest_eq_ok h.built
  exact congrArg (fun validation => validation.terminal.reason) hchecked.manifest_validation

def shortReason : String := "adapter closed its socket"

def shortDigest : String := "a28fbfd59d967ed6a8f4f06377121807f302f2211fbd5754c697086466ab533a"

theorem manifestFits_short :
    ManifestFits (failedEnv shortDigest shortReason) frameBoundaryRegistry failedStaging failedRoot
      (failedInput shortReason) := by
  have hsize : (stagedManifest (failedEnv shortDigest shortReason) frameBoundaryRegistry failedStaging
      failedEvents (failedInput shortReason)).toOption.all
        (fun manifest => (manifest.toJson.pretty (fun _ => []) 0 ++ ['\n']).length ≤ 3000) = true := by
    decide +kernel
  intro staged hstaged manifest hmanifest
  obtain rfl : staged = failedEvents := by
    rw [failedRoot, OrdMap.find?_cons, if_pos rfl] at hstaged
    exact (Option.some.inj hstaged).symm
  rw [hmanifest] at hsize
  have hlength : (manifest.toJson.pretty (fun _ => []) 0 ++ ['\n']).length ≤ 3000 := of_decide_eq_true hsize
  have hbytes := length_utf8_bounds (manifest.toJson.pretty (fun _ => []) 0 ++ ['\n'])
  rw [Manifest.text, maxManifestBytes]
  omega

theorem publish_verify_failed :
    ∃ published root',
      publish (failedEnv shortDigest shortReason) frameBoundaryRegistry failedStaging faultless "01j0a6v9z0"
        (failedInput shortReason) failedRoot = (.ok published, root') ∧
      (failedEnv shortDigest shortReason).codec.RoundTrips published.manifest ∧
      verifyPublishedRecording (failedEnv shortDigest shortReason) frameBoundaryRegistry published.bundlePath
        (OrdMap.find? failedStaging.destinationName root') =
        .ok ⟨published.bundlePath, published.manifestSha256, published.manifest⟩ := by
  have hok : (publish (failedEnv shortDigest shortReason) frameBoundaryRegistry failedStaging faultless "01j0a6v9z0"
      (failedInput shortReason) failedRoot).1.isOk = true := by decide +kernel
  obtain ⟨published, root', hrun⟩ := exists_of_isOk hok
  have hround := failedEnv_roundTrips hrun
  have hverify := (publish_verify _ _ _ _ _ _ _ _).1 published hrun hround
  exact ⟨published, root', hrun, hround, hverify.1.mpr manifestFits_short⟩

def repeatedReason (n : ℕ) : String := String.ofList (List.replicate n 'x')

theorem length_repeatedReason (n : ℕ) : (repeatedReason n).toList.length = n := by
  rw [repeatedReason, String.toList_ofList, List.length_replicate]

def longReason : String := repeatedReason 131072

def longDigest : String := "6d9e300594e370569586733383c671182b9ef21f95c7e675f4011d1441d820b0"

theorem publish_unverifiable :
    ∃ published root',
      publish (failedEnv longDigest longReason) frameBoundaryRegistry failedStaging faultless "01j0a6v9z0"
        (failedInput longReason) failedRoot = (.ok published, root') ∧
      (failedEnv longDigest longReason).codec.RoundTrips published.manifest ∧
      ∀ verified, verifyPublishedRecording (failedEnv longDigest longReason) frameBoundaryRegistry
        published.bundlePath (OrdMap.find? failedStaging.destinationName root') ≠ .ok verified := by
  have hok : (publish (failedEnv longDigest longReason) frameBoundaryRegistry failedStaging faultless "01j0a6v9z0"
      (failedInput longReason) failedRoot).1.isOk = true := by decide +kernel
  obtain ⟨published, root', hrun⟩ := exists_of_isOk hok
  obtain ⟨-, -, staged, final, -, hfinal, hbundled⟩ := publish_eq_ok hrun
  refine ⟨published, root', hrun, failedEnv_roundTrips hrun, fun verified hverified => ?_⟩
  rw [hfinal] at hverified
  have hshort := hbundled.length_le_of_verify hverified
  have hlong : longReason.toList.length < _ := length_reason_lt hbundled.reason
  rw [longReason, length_repeatedReason] at hlong
  rw [maxManifestBytes] at hshort
  omega

end failed

end Emucap.Bundle
