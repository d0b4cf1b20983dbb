import Emucap.Live.Continuity

/-!
# Runs on the link records

Claims, observations, temporal operations, exits and replacements interleave in any order on one store. An update is
lawful when its outcome is a `RecordMove`, whatever the stored record is by then.
-/

namespace Emucap.Live

open Emucap.Lib

/-! ## The machine -/

/-- The manifests and link records of the store, the processes that have ended, and the launches that have
been current, each with its port. -/
structure RuntimeWorld where
  current : ℕ → Option CurrentManifest
  link : ℕ → String → Option LinkRecord
  exited : List ProcessIdentity
  launched : List (String × ℕ)

namespace RuntimeWorld

def empty : RuntimeWorld := ⟨fun _ => none, fun _ _ => none, [], []⟩

def setLink (s : RuntimeWorld) (port : ℕ) (launchId : String) (cell : Option LinkRecord) : RuntimeWorld :=
  { s with link := fun p l => if p = port ∧ l = launchId then cell else s.link p l }

/-- A generation becomes current, and the directories of some other generations of its port are removed. -/
def replace (s : RuntimeWorld) (port : ℕ) (manifest : CurrentManifest) (removed : String → Bool) :
    RuntimeWorld where
  current p := if p = port then some manifest else s.current p
  link p l := if p = port ∧ removed l = true ∧ l ≠ manifest.launchId then none else s.link p l
  exited := s.exited
  launched := (manifest.launchId, port) :: s.launched

def lease (s : RuntimeWorld) (port : ℕ) (launchId : String) : Option LeaseRecord :=
  (s.link port launchId).bind LinkRecord.lease

def holder (s : RuntimeWorld) (port : ℕ) (launchId : String) : Option ProcessIdentity :=
  (s.lease port launchId).map LeaseRecord.holder

def marker (s : RuntimeWorld) (port : ℕ) (launchId : String) : Option TemporalOperation :=
  (s.link port launchId).bind LinkRecord.temporalOperation

def IsCurrent (s : RuntimeWorld) (port : ℕ) (launchId : String) : Prop :=
  ∃ c, s.current port = some c ∧ c.launchId = launchId

theorem setLink_self (s : RuntimeWorld) (port : ℕ) (launchId : String) :
    s.setLink port launchId (s.link port launchId) = s := by
  unfold setLink
  congr 1
  funext p l
  split_ifs with h
  · rw [h.1, h.2]
  · rfl

theorem link_setLink {s : RuntimeWorld} {port p : ℕ} {launchId l : String} {cell : Option LinkRecord} :
    (s.setLink port launchId cell).link p l = if p = port ∧ l = launchId then cell else s.link p l := rfl

end RuntimeWorld

/-- The surroundings of one operation. -/
structure LinkOracle where
  read : Except IoError Unit
  capture : Except IoError (Option CaptureCapsule)
  sessions : Except IoError (List SessionEntry)
  generationExists : Except IoError Bool
  sameContent : Bool
  report : ProcessIdentity → ProcessState
  now : ℕ
  inner : Except LinkError Json × InnerLink
  token : Except IoError Unit
  currentLock : Except IoError Unit
  locked : Locked
  captureBlocker : Except IoError (Option String)
  removed : String → Bool

namespace LinkOracle

/-- `process_state`: a process that has not ended is not reported as exited. -/
def observe (w : LinkOracle) (s : RuntimeWorld) (p : ProcessIdentity) : ProcessState :=
  match w.report p with
  | .exited => if p ∈ s.exited then .exited else .unknown
  | state => state

def env (w : LinkOracle) (s : RuntimeWorld) : LinkEnv := ⟨w.now, w.observe s, w.token⟩

theorem observe_exited {w : LinkOracle} {s : RuntimeWorld} {p : ProcessIdentity}
    (h : w.observe s p = .exited) : p ∈ s.exited := by
  unfold observe at h
  split at h
  · split_ifs at h with hp
    exact hp
  · contradiction

end LinkOracle

section exec

variable (bytes : LinkRecord → Option ℕ) (w : LinkOracle) (s : RuntimeWorld)

def readCurrentFile (port : ℕ) : Except IoError (Option CurrentManifest) :=
  RuntimeStore.readCurrent port (w.read.map fun _ => s.current port)

def updateLinkJson (port : ℕ) (launchId : String) (f : LinkUpdate) :
    Option (Except IoError LinkRecord) × RuntimeWorld :=
  match validateLaunchId launchId with
  | .error e => (some (.error e), s)
  | .ok () =>
    let (reply, cell) := updateJson bytes w.locked (f (w.env s)) (s.link port launchId)
    (reply, s.setLink port launchId cell)

/-- The generation check of `update_current_link_json`, under the lock of the port's current file. -/
def requireCurrent (port : ℕ) (launchId : String) : Except IoError Unit := do
  validateLaunchId launchId
  w.currentLock
  match ← readCurrentFile w s port with
  | none => throw ⟨.notFound, "runtime current generation disappeared before lease acquisition"⟩
  | some current =>
    if current.launchId ≠ launchId then
      throw ⟨.wouldBlock, "runtime current generation changed before lease acquisition"⟩

def commitCheck (prepared : PreparedGeneration) (manifest : CurrentManifest) : Except IoError Unit := do
  validateLaunchId manifest.launchId
  if manifest.launchId ≠ prepared.launchId ∨ manifest.port ≠ prepared.port then
    throw ⟨.invalidInput, "runtime manifest does not match prepared generation"⟩
  w.currentLock
  let observed ← readCurrentFile w s prepared.port
  if observed.map CurrentManifest.launchId ≠ prepared.expectedCurrentLaunchId then
    throw ⟨.wouldBlock, "runtime current generation changed after launch preparation"⟩
  if prepared.expectedCurrentLaunchId.isSome then
    match ← w.captureBlocker with
    | some reason =>
      throw ⟨.wouldBlock, "runtime generation is blocked by recording capture safety: " ++ reason⟩
    | none => pure ()

def linkExec : (o : LinkOp) → Option o.Reply × RuntimeWorld
  | .readCurrent port => (some (readCurrentFile w s port), s)
  | .sessions => (some w.sessions, s)
  | .generationExists _ _ => (some w.generationExists, s)
  | .readLink port launchId =>
    (some (validateLaunchId launchId >>= fun _ => w.read.map fun _ => s.link port launchId), s)
  | .readCapture _ launchId => (some (validateLaunchId launchId >>= fun _ => w.capture), s)
  | .sameContentPath _ _ => (some w.sameContent, s)
  | .processState p => (some (w.observe s p), s)
  | .now => (some w.now, s)
  | .innerCall _ _ => (some w.inner, s)
  | .updateLink port launchId f => updateLinkJson bytes w s port launchId f
  | .updateCurrentLink port launchId f =>
    match requireCurrent w s port launchId with
    | .error e => (some (.error e), s)
    | .ok () => updateLinkJson bytes w s port launchId f
  | .commit prepared manifest =>
    if manifest.launchId ∈ s.launched.map Prod.fst then (none, s)
    else match commitCheck w s prepared manifest with
      | .error e => (some (.error e), s)
      | .ok () =>
        match w.locked.publish with
        | .refused e => (some (.error e), s)
        | .unconfirmed e => (some (.error e), s.replace prepared.port manifest fun _ => false)
        | .stored => (some (.ok ()), s.replace prepared.port manifest w.removed)
  | .exit p => (some (), { s with exited := p :: s.exited })

end exec

inductive LinkRequest where
  | claim (port : ℕ) (launchId : String) (holder : ProcessIdentity) (controlKey token : Option String)
  | acquire (link : ObservedLink) (expectedLaunchId : Option String)
  | ensure (link : ObservedLink) (method : String) (params : Json)
  | success (link : ObservedLink) (method : String) (result : Json)
  | failure (link : ObservedLink) (method : String) (error : LinkError)
  | begin (link : ObservedLink) (key : OperationKey)
  | finish (link : ObservedLink) (key : OperationKey) (verified : Bool)
  | call (link : ObservedLink) (method : String) (params : Json)
  | commit (prepared : PreparedGeneration) (manifest : CurrentManifest)
  | exit (p : ProcessIdentity)

inductive LinkReturn where
  | claimed (r : Except IoError (LinkRecord × LeaseView))
  | lease (link : ObservedLink) (r : Except IoError LeaseView)
  | done (link : ObservedLink) (r : Except LinkError Unit)
  | observed (link : ObservedLink)
  | value (link : ObservedLink) (r : Except LinkError Json)
  | committed (r : Except IoError Unit)
  | exited

def linkBody (bytes : LinkRecord → Option ℕ) : LinkRequest → LinkProg LinkReturn
  | .claim port launchId holder controlKey token => do
    match ← claimGenerationLease bytes port launchId holder controlKey token with
    | .error e => return .claimed (.error e)
    | .ok record => return .claimed (.ok (record, ← recordLeaseView (some record) holder))
  | .acquire link expectedLaunchId => do
    let (link, r) ← link.claimLeaseFor bytes expectedLaunchId
    return .lease link r
  | .ensure link method params => do
    let (link, r) ← link.ensureMutationLease bytes method params
    return .done link r
  | .success link method result => do return .observed (← link.recordSuccess bytes method result)
  | .failure link method error => do return .observed (← link.recordFailure bytes method error)
  | .begin link key => do
    let (link, r) ← link.beginTemporalControl bytes key
    return .done link r
  | .finish link key verified => do
    let (link, r) ← link.finishTemporalControl bytes key verified
    return .done link r
  | .call link method params => do
    let (link, r) ← link.call bytes method params
    return .value link r
  | .commit prepared manifest => do return .committed (← Prog.issue (LinkOp.commit prepared manifest))
  | .exit p => do
    Prog.issue (LinkOp.exit p)
    return .exited

def linkMachine (bytes : LinkRecord → Option ℕ) :
    Machine LinkOp LinkOp.Reply LinkReturn RuntimeWorld LinkOracle LinkRequest where
  exec o w s := linkExec bytes w s o
  body := linkBody bytes

/-! ## Moves -/

def LinkRequest.claimant : LinkRequest → Option ProcessIdentity
  | .claim _ _ holder _ _ => some holder
  | .acquire link _ | .ensure link _ _ | .success link _ _ | .failure link _ _ | .begin link _
  | .finish link _ _ | .call link _ _ => some link.holder
  | .commit _ _ | .exit _ => none

/-- What an update can do to a lease: nothing, refresh it, or, for the current generation, give it to the
calling process when there is no holder or the holder has ended. -/
inductive LeaseMove (d : LinkRequest) (s : RuntimeWorld) (port : ℕ) (launchId : String) :
    Option LeaseRecord → Option LeaseRecord → Prop
  | same (l : Option LeaseRecord) : LeaseMove d s port launchId l l
  | refresh {l l' : LeaseRecord} : l'.holder = l.holder → l'.controlSessionKey = l.controlSessionKey →
      LeaseMove d s port launchId (some l) (some l')
  | claim {l : Option LeaseRecord} {l' : LeaseRecord} : s.IsCurrent port launchId →
      d.claimant = some l'.holder → (∀ l₀, l = some l₀ → l₀.holder ∈ s.exited) →
      LeaseMove d s port launchId l (some l')

def HeldBy (link : ObservedLink) (l : Option LeaseRecord) : Prop :=
  ∃ l₀, l = some l₀ ∧ l₀.holder = link.holder ∧ l₀.controlSessionKey = link.controlKey

/-- What an update can do to the marker of a launch whose lease is `l`: nothing; or, by the holder of the
lease, begin an operation where there is none, and finish the active operation it began itself. -/
inductive MarkerMove (d : LinkRequest) (launchId : String) (l : Option LeaseRecord) :
    Option TemporalOperation → Option TemporalOperation → Prop
  | same (m : Option TemporalOperation) : MarkerMove d launchId l m m
  | begin {link : ObservedLink} {key : OperationKey} : d = .begin link key → key.runtime = launchId →
      HeldBy link l → MarkerMove d launchId l none (some ⟨key, link.holder, link.controlKey, .active⟩)
  | unverify {link : ObservedLink} {key : OperationKey} : d = .finish link key false →
      key.runtime = launchId → HeldBy link l →
      MarkerMove d launchId l (some ⟨key, link.holder, link.controlKey, .active⟩)
        (some ⟨key, link.holder, link.controlKey, .unverified⟩)
  | clear {link : ObservedLink} {key : OperationKey} : d = .finish link key true →
      key.runtime = launchId → HeldBy link l →
      MarkerMove d launchId l (some ⟨key, link.holder, link.controlKey, .active⟩) none

structure RecordMove (d : LinkRequest) (s : RuntimeWorld) (port : ℕ) (launchId : String)
    (new : LinkRecord) : Prop where
  id : new.launchId = launchId
  lease : LeaseMove d s port launchId (s.lease port launchId) new.lease
  marker : MarkerMove d launchId (s.lease port launchId) (s.marker port launchId) new.temporalOperation

inductive WorldMove (d : LinkRequest) (s : RuntimeWorld) : RuntimeWorld → Prop
  | same : WorldMove d s s
  | write {port : ℕ} {launchId : String} {new : LinkRecord} : RecordMove d s port launchId new →
      WorldMove d s (s.setLink port launchId (some new))
  | commit {prepared : PreparedGeneration} {manifest : CurrentManifest} {removed : String → Bool} :
      d = .commit prepared manifest → manifest.launchId ∉ s.launched.map Prod.fst →
      WorldMove d s (s.replace prepared.port manifest removed)
  | exit {p : ProcessIdentity} : d = .exit p → WorldMove d s { s with exited := p :: s.exited }

/-- A record lies where its launch id says, manifests and leases are of launches that became current at that
port, and a launch became current at one port. -/
structure LinkInv (s : RuntimeWorld) : Prop where
  id : ∀ {port launchId r}, s.link port launchId = some r → r.launchId = launchId
  current : ∀ {port c}, s.current port = some c → (c.launchId, port) ∈ s.launched
  held : ∀ {port launchId l}, s.lease port launchId = some l → (launchId, port) ∈ s.launched
  once : ∀ {launchId port port'}, (launchId, port) ∈ s.launched → (launchId, port') ∈ s.launched → port = port'

theorem LinkInv.empty : LinkInv RuntimeWorld.empty := ⟨nofun, nofun, nofun, nofun⟩

theorem LeaseMove.launched {d : LinkRequest} {s : RuntimeWorld} {port : ℕ} {launchId : String}
    {l : LeaseRecord} (h : LeaseMove d s port launchId (s.lease port launchId) (some l)) (hinv : LinkInv s) :
    (launchId, port) ∈ s.launched := by
  generalize hold : s.lease port launchId = old at h
  generalize hnew : some l = new at h
  cases h with
  | same => exact hinv.held (hold.trans hnew.symm)
  | refresh _ _ => exact hinv.held hold
  | claim hcurrent _ _ =>
    obtain ⟨c, hc, rfl⟩ := hcurrent
    exact hinv.current hc

theorem LinkInv.write {d : LinkRequest} {s : RuntimeWorld} {port : ℕ} {launchId : String} {new : LinkRecord}
    (hinv : LinkInv s) (hmove : RecordMove d s port launchId new) :
    LinkInv (s.setLink port launchId (some new)) := by
  refine ⟨fun {p l r} hr => ?_, hinv.current, fun {p l lease} hl => ?_, hinv.once⟩
  · rw [RuntimeWorld.link_setLink] at hr
    split_ifs at hr with hpl
    · obtain rfl := Option.some.inj hr
      rw [hmove.id, hpl.2]
    · exact hinv.id hr
  · rw [RuntimeWorld.lease, RuntimeWorld.link_setLink] at hl
    split_ifs at hl with hpl
    · have hlease : new.lease = some lease := hl
      have hmoved := hmove.lease
      rw [hlease] at hmoved
      rw [hpl.1, hpl.2]
      exact hmoved.launched hinv
    · exact hinv.held hl

theorem LinkInv.replace {s : RuntimeWorld} {port : ℕ} {manifest : CurrentManifest} {removed : String → Bool}
    (hinv : LinkInv s) (hfresh : manifest.launchId ∉ s.launched.map Prod.fst) :
    LinkInv (s.replace port manifest removed) := by
  have hnew : ∀ p, (manifest.launchId, p) ∉ s.launched :=
    fun p hp => hfresh (List.mem_map.mpr ⟨_, hp, rfl⟩)
  refine ⟨fun {p l r} hr => ?_, fun {p c} hc => ?_, fun {p l lease} hl => ?_, fun {l p q} hp hq => ?_⟩
  · simp only [RuntimeWorld.replace] at hr
    split_ifs at hr
    exact hinv.id hr
  · simp only [RuntimeWorld.replace] at hc
    split_ifs at hc with hport
    · obtain rfl := Option.some.inj hc
      rw [hport]
      exact List.mem_cons_self
    · exact List.mem_cons_of_mem _ (hinv.current hc)
  · simp only [RuntimeWorld.lease, RuntimeWorld.replace] at hl
    split_ifs at hl
    · cases hl
    · exact List.mem_cons_of_mem _ (hinv.held hl)
  · rcases List.mem_cons.mp hp with hp | hp <;> rcases List.mem_cons.mp hq with hq | hq
    · cases hp
      cases hq
      rfl
    · cases hp
      exact absurd hq (hnew q)
    · cases hq
      exact absurd hp (hnew p)
    · exact hinv.once hp hq

theorem WorldMove.inv {d : LinkRequest} {s s' : RuntimeWorld} (h : WorldMove d s s') (hinv : LinkInv s) :
    LinkInv s' := by
  cases h with
  | same => exact hinv
  | write hmove => exact hinv.write hmove
  | commit _ hfresh => exact hinv.replace hfresh
  | exit _ => exact ⟨hinv.id, hinv.current, hinv.held, hinv.once⟩

/-! ## Lawful updates -/

/-- Whatever is stored when the update runs, its outcome is a move of the call. -/
def Lawful (d : LinkRequest) (port : ℕ) (launchId : String) (atCurrent : Prop) (f : LinkUpdate) : Prop :=
  ∀ (s : RuntimeWorld) (env : LinkEnv) (new : LinkRecord), LinkInv s →
    (∀ p, env.processState p = .exited → p ∈ s.exited) → (atCurrent → s.IsCurrent port launchId) →
    f env (s.link port launchId) = some (.ok new) → RecordMove d s port launchId new

section lawful

variable {bytes : LinkRecord → Option ℕ} {d : LinkRequest} {port : ℕ} {launchId : String} {s : RuntimeWorld}

theorem map_ok_eq_some {r : Option LinkRecord} {new : LinkRecord}
    (h : (r.map Except.ok : Option (Except IoError LinkRecord)) = some (.ok new)) : r = some new := by
  obtain ⟨r', hr', hok⟩ := Option.map_eq_some_iff.mp h
  rw [hr', Except.ok.inj hok]

theorem launchRecord_keeps (hinv : LinkInv s) (port : ℕ) (launchId : String) (now : ℕ) :
    (launchRecord launchId now (s.link port launchId)).launchId = launchId ∧
      (launchRecord launchId now (s.link port launchId)).lease = s.lease port launchId ∧
      (launchRecord launchId now (s.link port launchId)).temporalOperation = s.marker port launchId := by
  unfold launchRecord RuntimeWorld.lease RuntimeWorld.marker
  rcases hr : s.link port launchId with _ | r
  · exact ⟨rfl, rfl, rfl⟩
  · have hfilter : (some r).filter (fun r => r.launchId == launchId) = some r := by
      simp [Option.filter, hinv.id hr]
    rw [hfilter]
    exact ⟨hinv.id hr, rfl, rfl⟩

theorem leaseAfterClaim_move {holder : ProcessIdentity} {controlKey : Option String} {env : LinkEnv}
    {old : Option LeaseRecord} {l : LeaseRecord} (hd : d.claimant = some holder)
    (hcurrent : s.IsCurrent port launchId) (hexited : ∀ p, env.processState p = .exited → p ∈ s.exited)
    (h : leaseAfterClaim holder controlKey env old = .ok l) : LeaseMove d s port launchId old (some l) := by
  unfold leaseAfterClaim at h
  rcases old with _ | old
  · obtain rfl := Except.ok.inj h
    exact .claim hcurrent hd fun _ h => (nomatch h)
  · simp only at h
    split_ifs at h with hholder
    · obtain rfl := Except.ok.inj h
      exact .refresh rfl rfl
    · split at h
      · cases h
      · obtain rfl := Except.ok.inj h
        refine .claim hcurrent hd fun l₀ hl₀ => ?_
        obtain rfl := Option.some.inj hl₀
        exact hexited _ ‹_›
      · cases h

theorem claimUpdate_lawful {holder : ProcessIdentity} {controlKey token : Option String}
    (hd : d.claimant = some holder) :
    Lawful d port launchId True (claimUpdate bytes launchId holder controlKey token) := by
  intro s env new hinv hexited hcurrent h
  unfold claimUpdate at h
  simp only at h
  split_ifs at h
  · cases h
  obtain ⟨hid, hlease, hmarker⟩ := launchRecord_keeps hinv port launchId env.now
  split at h
  · cases h
  · rename_i l hl
    split at h
    · cases h
    · have hkeeps := LinkRecord.bounded_keeps (map_ok_eq_some h)
      refine ⟨hkeeps.launchId.trans hid, ?_, ?_⟩
      · rw [hkeeps.lease, ← hlease]
        exact leaseAfterClaim_move hd (hcurrent trivial) hexited hl
      · rw [hkeeps.temporalOperation, hmarker]
        exact .same _

def ObservationKeeps (observation : ℕ → LinkRecord → LinkRecord) : Prop :=
  ∀ now (r : LinkRecord), r.Keeps (observation now r)

theorem observeSuccess_keeps (identity : EmulatorIdentity) (method : String) (result : Json) :
    ObservationKeeps (ObservedLink.observeSuccess identity method result) := fun _ _ => ⟨rfl, rfl, rfl⟩

theorem observeFailure_keeps (transport : TransportState) (method kind : String) :
    ObservationKeeps (ObservedLink.observeFailure transport method kind) := fun _ _ => ⟨rfl, rfl, rfl⟩

theorem observeUpdate_lawful {observation : ℕ → LinkRecord → LinkRecord} (hobs : ObservationKeeps observation) :
    Lawful d port launchId False (ObservedLink.observeUpdate bytes launchId observation) := by
  intro s env new hinv _ _ h
  obtain ⟨hid, hlease, hmarker⟩ := launchRecord_keeps hinv port launchId env.now
  have hbounded := LinkRecord.bounded_keeps (map_ok_eq_some h)
  have hseen := hobs env.now (launchRecord launchId env.now (s.link port launchId))
  refine ⟨hbounded.launchId.trans (hseen.launchId.trans hid), ?_, ?_⟩
  · rw [hbounded.lease, hseen.lease, hlease]
    exact .same _
  · rw [hbounded.temporalOperation, hseen.temporalOperation, hmarker]
    exact .same _

theorem heldBy_of_holdsLease {self : ObservedLink} {r : LinkRecord} (h : self.holdsLease r = true) :
    HeldBy self r.lease := by
  unfold ObservedLink.holdsLease at h
  rcases hl : r.lease with _ | l
  · rw [hl] at h
    cases h
  · rw [hl] at h
    obtain ⟨hholder, hkey⟩ : l.holder = self.holder ∧ l.controlSessionKey = self.controlKey := by
      simpa using h
    exact ⟨l, rfl, hholder, hkey⟩

/-- Two states of one controller's link. -/
structure SameController (a b : ObservedLink) : Prop where
  holder : b.holder = a.holder
  controlKey : b.controlKey = a.controlKey

theorem SameController.trans {a b c : ObservedLink} (h : SameController a b) (h' : SameController b c) :
    SameController a c := ⟨h'.holder.trans h.holder, h'.controlKey.trans h.controlKey⟩

theorem HeldBy.of_same {a b : ObservedLink} (hab : SameController a b) {l : Option LeaseRecord}
    (h : HeldBy b l) : HeldBy a l := by
  obtain ⟨l₀, hl, hholder, hkey⟩ := h
  exact ⟨l₀, hl, hholder.trans hab.holder, hkey.trans hab.controlKey⟩

theorem beginUpdate_lawful {link self : ObservedLink} {key : OperationKey} {p : Prop}
    (hself : SameController link self) :
    Lawful (.begin link key) port key.runtime p (self.beginUpdate bytes key) := by
  intro s env new hinv _ _ h
  unfold ObservedLink.beginUpdate at h
  rcases hr : s.link port key.runtime with _ | r
  · rw [hr] at h
    cases h
  · rw [hr] at h
    simp only at h
    split_ifs at h with hrefused
    · cases h
    simp only [not_or, not_not] at hrefused
    obtain ⟨hid, hfree, hholds⟩ := hrefused
    have hlease : s.lease port key.runtime = r.lease := by rw [RuntimeWorld.lease, hr]; rfl
    have hmarker : s.marker port key.runtime = none := by
      rw [RuntimeWorld.marker, hr]
      simpa using hfree
    have hkeeps := LinkRecord.bounded_keeps (map_ok_eq_some h)
    have hheld : HeldBy link r.lease := (heldBy_of_holdsLease (by simpa using hholds)).of_same hself
    refine ⟨hkeeps.launchId.trans hid, ?_, ?_⟩
    · rw [hkeeps.lease, hlease]
      exact .same _
    · rw [hkeeps.temporalOperation, hlease, hmarker, hself.holder, hself.controlKey]
      exact .begin rfl rfl hheld

theorem finishUpdate_lawful {link self : ObservedLink} {key : OperationKey} {verified : Bool} {p : Prop}
    (hself : SameController link self) :
    Lawful (.finish link key verified) port key.runtime p (self.finishUpdate bytes key verified) := by
  intro s env new hinv _ _ h
  unfold ObservedLink.finishUpdate at h
  rcases hr : s.link port key.runtime with _ | r
  · rw [hr] at h
    cases h
  · rw [hr] at h
    simp only at h
    by_cases hrefused : r.launchId ≠ key.runtime ∨ (!self.holdsLease r) = true
    · rw [if_pos hrefused] at h
      cases h
    rw [if_neg hrefused] at h
    simp only [not_or, not_not] at hrefused
    obtain ⟨hid, hholds⟩ := hrefused
    rcases hop : r.temporalOperation with _ | operation
    · rw [hop] at h
      cases h
    · rw [hop] at h
      simp only at h
      by_cases hforeign : operation.key ≠ key ∨ operation.holder ≠ self.holder ∨
          operation.controlSessionKey ≠ self.controlKey ∨ operation.state ≠ .active
      · rw [if_pos hforeign] at h
        cases h
      rw [if_neg hforeign] at h
      simp only [not_or, not_not] at hforeign
      obtain ⟨hkey, hholder, hcontrol, hactive⟩ := hforeign
      have hlease : s.lease port key.runtime = r.lease := by rw [RuntimeWorld.lease, hr]; rfl
      have hmarker : s.marker port key.runtime = some ⟨key, link.holder, link.controlKey, .active⟩ := by
        rw [RuntimeWorld.marker, hr, ← hself.holder, ← hself.controlKey, ← hkey, ← hholder, ← hcontrol,
          ← hactive]
        exact hop
      have hkeeps := LinkRecord.bounded_keeps (map_ok_eq_some h)
      have hheld : HeldBy link r.lease := (heldBy_of_holdsLease (by simpa using hholds)).of_same hself
      refine ⟨hkeeps.launchId.trans hid, ?_, ?_⟩
      · rw [hkeeps.lease, hlease]
        exact .same _
      · rw [hkeeps.temporalOperation, hlease, hmarker]
        cases verified with
        | true => exact .clear rfl rfl hheld
        | false =>
          rw [hkey, hholder, hcontrol, hself.holder, hself.controlKey]
          exact .unverify rfl rfl hheld

end lawful

end Emucap.Live
