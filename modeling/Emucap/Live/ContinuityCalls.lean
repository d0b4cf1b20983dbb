import Emucap.Live.ContinuityRuns

/-!
# What the calls of a controller know

What a call has seen of the stored records says what its result means: a lease is held only where the record named
this process (`Claimed`), and a mutation is admitted only where no other marker was stored (`Admitted`).
-/

namespace Emucap.Live

open Emucap.Lib

/-! ## Knowledge -/

/-- The records a call has seen stored, and whether it has stored one itself. -/
structure LinkPhase where
  seen : List (ℕ × String × Option LinkRecord)
  wrote : Bool

def linkAllowed (d : LinkRequest) (_g : LinkPhase) : LinkOp → Prop
  | .updateLink port launchId f => Lawful d port launchId False f
  | .updateCurrentLink port launchId f => Lawful d port launchId True f
  | .commit prepared manifest => d = .commit prepared manifest
  | .exit p => d = .exit p
  | _ => True

def LinkPhase.stored (g : LinkPhase) (port : ℕ) (launchId : String) : Except IoError LinkRecord → LinkPhase
  | .ok r => ⟨(port, launchId, some r) :: g.seen, true⟩
  | .error _ => g

def linkNext (g : LinkPhase) (o : LinkOp) : o.Reply → LinkPhase :=
  match o with
  | .readLink port launchId => fun
    | .ok r => { g with seen := (port, launchId, r) :: g.seen }
    | .error _ => g
  | .updateLink port launchId _ => g.stored port launchId
  | .updateCurrentLink port launchId _ => g.stored port launchId
  | .commit _ _ => fun _ => { g with wrote := true }
  | _ => fun _ => g

abbrev LinkEvent := Event RuntimeWorld LinkOracle LinkRequest

structure LinkKnow (g : LinkPhase) (own : List LinkEvent) : Prop where
  seen : ∀ port launchId r, (port, launchId, r) ∈ g.seen → ∃ e ∈ own, e.after.link port launchId = r
  wrote : g.wrote = false → ∀ e ∈ own, e.oracle.locked.atomic → e.after.link = e.before.link

namespace LinkKnow

variable {g : LinkPhase} {own : List LinkEvent}

theorem start : LinkKnow ⟨[], false⟩ [] :=
  ⟨fun _ _ _ h => absurd h List.not_mem_nil, fun _ _ h => absurd h List.not_mem_nil⟩

theorem same (h : LinkKnow g own) {e : LinkEvent} (he : e.oracle.locked.atomic → e.after.link = e.before.link) :
    LinkKnow g (e :: own) := by
  refine ⟨fun port launchId r hr => ?_, fun hwrote e' he' hatomic => ?_⟩
  · obtain ⟨e', he', hlink⟩ := h.seen port launchId r hr
    exact ⟨e', List.mem_cons_of_mem _ he', hlink⟩
  · rcases List.mem_cons.mp he' with rfl | he'
    · exact he hatomic
    · exact h.wrote hwrote e' he' hatomic

theorem read (h : LinkKnow g own) {e : LinkEvent} {port : ℕ} {launchId : String} {r : Option LinkRecord}
    (hr : e.after.link port launchId = r) (he : e.after.link = e.before.link) :
    LinkKnow { g with seen := (port, launchId, r) :: g.seen } (e :: own) := by
  refine ⟨fun port' launchId' r' hr' => ?_, (h.same fun _ => he).wrote⟩
  rcases List.mem_cons.mp hr' with heq | hr'
  · cases heq
    exact ⟨e, List.mem_cons_self, hr⟩
  · exact (h.same fun _ => he).seen port' launchId' r' hr'

theorem stored (h : LinkKnow g own) {e : LinkEvent} {port : ℕ} {launchId : String} {r : LinkRecord}
    (hr : e.after.link port launchId = some r) :
    LinkKnow ⟨(port, launchId, some r) :: g.seen, true⟩ (e :: own) := by
  refine ⟨fun port' launchId' r' hr' => ?_, fun hwrote => (nomatch hwrote)⟩
  rcases List.mem_cons.mp hr' with heq | hr'
  · cases heq
    exact ⟨e, List.mem_cons_self, hr⟩
  · obtain ⟨e', he', hlink⟩ := h.seen port' launchId' r' hr'
    exact ⟨e', List.mem_cons_of_mem _ he', hlink⟩

theorem changed (h : LinkKnow g own) (e : LinkEvent) : LinkKnow { g with wrote := true } (e :: own) := by
  refine ⟨fun port launchId r hr => ?_, fun hwrote => (nomatch hwrote)⟩
  obtain ⟨e', he', hlink⟩ := h.seen port launchId r hr
  exact ⟨e', List.mem_cons_of_mem _ he', hlink⟩

end LinkKnow

/-! ## Single operations -/

section exec

variable {bytes : LinkRecord → Option ℕ} {d : LinkRequest} {g : LinkPhase} {w : LinkOracle} {s : RuntimeWorld}
  {port : ℕ} {launchId : String} {f : LinkUpdate}

/-- What a link update can do: nothing; or store the outcome of the closure, reporting it or, if the
replacement is not atomic, an error. -/
theorem updateLinkJson_cases (bytes : LinkRecord → Option ℕ) (w : LinkOracle) (s : RuntimeWorld) (port : ℕ)
    (launchId : String) (f : LinkUpdate) :
    (∃ reply, updateLinkJson bytes w s port launchId f = (reply, s) ∧ ∀ r, reply ≠ some (.ok r)) ∨
    (∃ new, f (w.env s) (s.link port launchId) = some (.ok new) ∧
      (updateLinkJson bytes w s port launchId f = (some (.ok new), s.setLink port launchId (some new)) ∨
        ∃ e, ¬ w.locked.atomic ∧
          updateLinkJson bytes w s port launchId f = (some (.error e), s.setLink port launchId (some new)))) := by
  unfold updateLinkJson
  cases validateLaunchId launchId with
  | error e => exact .inl ⟨some (.error e), rfl, fun r h => by cases h⟩
  | ok u =>
    rcases updateJson_cases bytes w.locked (f (w.env s)) (s.link port launchId) with
      ⟨e, h⟩ | h | ⟨new, hnew, h⟩ | ⟨new, e, hnew, hatomic, h⟩
    · refine .inl ⟨some (.error e), ?_, fun r h => by cases h⟩
      simp only [h, RuntimeWorld.setLink_self]
    · refine .inl ⟨none, ?_, fun r h => by cases h⟩
      simp only [h, RuntimeWorld.setLink_self]
    · exact .inr ⟨new, hnew, .inl (by simp only [h])⟩
    · exact .inr ⟨new, hnew, .inr ⟨e, hatomic, by simp only [h]⟩⟩

theorem updateLinkJson_move {p : Prop} (hinv : LinkInv s) (hlawful : Lawful d port launchId p f)
    (hcurrent : p → s.IsCurrent port launchId) :
    WorldMove d s (updateLinkJson bytes w s port launchId f).2 := by
  have hexited : ∀ p, (w.env s).processState p = .exited → p ∈ s.exited := fun _ => LinkOracle.observe_exited
  rcases updateLinkJson_cases bytes w s port launchId f with ⟨reply, h, -⟩ | ⟨new, hnew, h | ⟨e, -, h⟩⟩
  · rw [h]
    exact .same
  · rw [h]
    exact .write (hlawful s _ new hinv hexited hcurrent hnew)
  · rw [h]
    exact .write (hlawful s _ new hinv hexited hcurrent hnew)

theorem readCurrentFile_eq_ok {c : CurrentManifest} (h : readCurrentFile w s port = .ok (some c)) :
    s.current port = some c := by
  unfold readCurrentFile RuntimeStore.readCurrent at h
  cases hread : w.read with
  | error e =>
    rw [hread] at h
    cases h
  | ok u =>
    rw [hread] at h
    rcases hc : s.current port with _ | c'
    · simp only [Except.map, hc] at h
      cases h
    · simp only [Except.map, hc, bind, Except.bind] at h
      cases hid : validateLaunchId c'.launchId with
      | error e =>
        rw [hid] at h
        cases h
      | ok u =>
        rw [hid] at h
        simp only at h
        split_ifs at h
        cases h
        rfl

theorem requireCurrent_eq_ok {u : Unit} (h : requireCurrent w s port launchId = .ok u) :
    s.IsCurrent port launchId := by
  unfold requireCurrent at h
  simp only [bind, Except.bind] at h
  cases hid : validateLaunchId launchId with
  | error e =>
    rw [hid] at h
    cases h
  | ok u =>
    rw [hid] at h
    cases hlock : w.currentLock with
    | error e =>
      rw [hlock] at h
      cases h
    | ok u =>
      rw [hlock] at h
      rcases hread : readCurrentFile w s port with e | _ | c
      · rw [hread] at h
        cases h
      · rw [hread] at h
        cases h
      · rw [hread] at h
        simp only at h
        split_ifs at h with hsame
        exact ⟨c, readCurrentFile_eq_ok hread, by simpa using hsame⟩

theorem linkExec_move {o : LinkOp} (hinv : LinkInv s) (h : linkAllowed d g o) :
    WorldMove d s (linkExec bytes w s o).2 := by
  cases o with
  | updateLink port launchId f => exact updateLinkJson_move hinv h False.elim
  | updateCurrentLink port launchId f =>
    simp only [linkExec]
    cases hcurrent : requireCurrent w s port launchId with
    | error e => exact .same
    | ok u => exact updateLinkJson_move hinv h fun _ => requireCurrent_eq_ok hcurrent
  | commit prepared manifest =>
    simp only [linkExec]
    split_ifs with hfresh
    · exact .same
    · split
      · exact .same
      · split
        · exact .same
        · exact .commit h hfresh
        · exact .commit h hfresh
  | exit p => exact .exit h
  | _ => exact .same

theorem updateLinkJson_know {own : List LinkEvent} (hknow : LinkKnow g own) {r : Except IoError LinkRecord}
    (hr : (updateLinkJson bytes w s port launchId f).1 = some r) (i : ℕ) :
    LinkKnow (g.stored port launchId r)
      (⟨i, d, w, s, (updateLinkJson bytes w s port launchId f).2⟩ :: own) := by
  rcases updateLinkJson_cases bytes w s port launchId f with
    ⟨reply, h, hreply⟩ | ⟨new, -, h | ⟨e, hatomic, h⟩⟩
  · rw [h] at hr ⊢
    cases r with
    | ok r => exact absurd hr (hreply r)
    | error e => exact hknow.same fun _ => rfl
  · rw [h] at hr ⊢
    obtain rfl := Option.some.inj hr
    refine hknow.stored ?_
    simp [RuntimeWorld.link_setLink]
  · rw [h] at hr ⊢
    obtain rfl := Option.some.inj hr
    exact hknow.same fun h => absurd h hatomic

theorem linkExec_know {o : LinkOp} {own : List LinkEvent} (hknow : LinkKnow g own) {r : o.Reply}
    (hr : (linkExec bytes w s o).1 = some r) (i : ℕ) :
    LinkKnow (linkNext g o r) (⟨i, d, w, s, (linkExec bytes w s o).2⟩ :: own) := by
  cases o with
  | readLink port launchId =>
    cases r with
    | error e => exact hknow.same fun _ => rfl
    | ok r =>
      refine hknow.read ?_ rfl
      have hread := Option.some.inj hr
      cases hid : validateLaunchId launchId with
      | error e =>
        rw [hid] at hread
        cases hread
      | ok u =>
        rw [hid] at hread
        cases hio : w.read with
        | error e =>
          rw [hio] at hread
          cases hread
        | ok u =>
          rw [hio] at hread
          exact Except.ok.inj hread
  | updateLink port launchId f => exact updateLinkJson_know hknow hr i
  | updateCurrentLink port launchId f =>
    simp only [linkExec] at hr ⊢
    cases hcurrent : requireCurrent w s port launchId with
    | error e =>
      rw [hcurrent] at hr
      obtain rfl := Option.some.inj hr
      exact hknow.same fun _ => rfl
    | ok u =>
      rw [hcurrent] at hr
      exact updateLinkJson_know hknow hr i
  | commit prepared manifest => exact hknow.changed _
  | exit p => exact hknow.same fun _ => rfl
  | _ => exact hknow.same fun _ => rfl

end exec

/-! ## Programs that only look -/

abbrev linkWp {α : Type} (d : LinkRequest) (post : LinkPhase → α → Prop) (x : LinkProg α) (g : LinkPhase) : Prop :=
  Prog.wp (linkAllowed d) linkNext (fun _ _ => True) post x g

structure Looked (g g' : LinkPhase) : Prop where
  seen : g.seen ⊆ g'.seen
  wrote : g'.wrote = g.wrote

namespace Looked

theorem refl (g : LinkPhase) : Looked g g := ⟨List.Subset.refl _, rfl⟩

theorem trans {g g' g'' : LinkPhase} (h : Looked g g') (h' : Looked g' g'') : Looked g g'' :=
  ⟨List.Subset.trans h.seen h'.seen, h'.wrote.trans h.wrote⟩

end Looked

def Looks {α : Type} (x : LinkProg α) : Prop := ∀ d g, linkWp d (fun g' _ => Looked g g') x g

namespace Looks

variable {α β : Type}

theorem bind {x : LinkProg α} {f : α → LinkProg β} (hx : Looks x) (hf : ∀ a, Looks (f a)) : Looks (x >>= f) := by
  intro d g
  refine Prog.wp_bind.mpr (Prog.wp_mono (fun g' a h => ?_) (hx d g))
  exact Prog.wp_mono (fun _ _ h' => h.trans h') (hf a d g')

theorem pure (a : α) : Looks (pure a : LinkProg α) := fun _ g => Looked.refl g

theorem ite {c : Prop} [Decidable c] {x y : LinkProg α} (hx : Looks x) (hy : Looks y) :
    Looks (if c then x else y) := by
  split_ifs
  · exact hx
  · exact hy

theorem readCurrent (port : ℕ) : Looks (LinkProg.readCurrent port) :=
  fun _ g => ⟨trivial, fun _ _ => Looked.refl g⟩

theorem sameContentPath (expected observed : String) : Looks (LinkProg.sameContentPath expected observed) :=
  fun _ g => ⟨trivial, fun _ _ => Looked.refl g⟩

theorem innerCall (method : String) (params : Json) : Looks (LinkProg.innerCall method params) :=
  fun _ g => ⟨trivial, fun _ _ => Looked.refl g⟩

theorem bindExcept {ε : Type} {x : ExceptT ε LinkProg α} {f : α → ExceptT ε LinkProg β} (hx : Looks x.run)
    (hf : ∀ a, Looks (f a).run) : Looks (x >>= f).run := by
  refine Looks.bind hx fun r => ?_
  cases r with
  | ok a => exact hf a
  | error e => exact Looks.pure _

theorem failIf {ε : Type} {c : Prop} [Decidable c] (e : ε) : Looks (Prog.failIf c e : ExceptT ε LinkProg Unit).run := by
  unfold Prog.failIf
  split_ifs
  · exact Looks.pure _
  · exact Looks.pure _

end Looks

theorem scanSessions_looks (launchId : String) (entries : List SessionEntry) (matched : Option CurrentManifest)
    (historical : Bool) : Looks (scanSessions launchId entries matched historical).run := by
  induction entries generalizing matched historical with
  | nil => exact Looks.bindExcept (Looks.failIf _) fun _ => Looks.pure _
  | cons entry rest ih =>
    refine Looks.bindExcept (Looks.failIf _) fun _ => ?_
    refine Looks.bindExcept (fun _ g => ⟨trivial, fun _ _ => Looked.refl g⟩) fun current => ?_
    split
    · exact Looks.bindExcept (Looks.failIf _) fun _ => ih _ _
    · refine Looks.bindExcept (fun _ g => ⟨trivial, fun _ _ => Looked.refl g⟩) fun there => ih _ _

theorem currentForLaunch_looks (launchId : String) : Looks (currentForLaunch launchId).run := by
  unfold currentForLaunch
  split
  · exact Looks.pure _
  · exact Looks.bindExcept (fun _ g => ⟨trivial, fun _ _ => Looked.refl g⟩) fun entries =>
      scanSessions_looks launchId entries none false

theorem contentAgrees_looks (current : CurrentManifest) (identity : EmulatorIdentity) :
    Looks (contentAgrees current identity) := by
  unfold contentAgrees
  split
  · exact Looks.pure _
  · exact Looks.ite (Looks.pure _) (Looks.sameContentPath _ _)

theorem runtimeBinding_looks (current : Option CurrentManifest) (identity : EmulatorIdentity) (observed : Bool) :
    Looks (runtimeBinding current identity observed) := by
  unfold runtimeBinding
  refine Looks.ite (Looks.pure _) ?_
  split
  · exact Looks.pure _
  · split
    · exact Looks.ite (Looks.pure _) (Looks.pure _)
    · exact (contentAgrees_looks _ _).bind fun _ => Looks.ite (Looks.pure _) (Looks.pure _)

theorem recordLeaseView_looks (record : Option LinkRecord) (holder : ProcessIdentity) (d : LinkRequest)
    (g : LinkPhase) : linkWp d (fun g' view => Looked g g' ∧ (view.state = .held →
      ∃ l, record.bind LinkRecord.lease = some l ∧ l.holder = holder)) (recordLeaseView record holder) g := by
  unfold recordLeaseView
  split
  · exact ⟨Looked.refl g, fun h => (nomatch h)⟩
  · rename_i l hl
    unfold leaseView
    split_ifs with hheld
    · exact ⟨Looked.refl g, fun _ => ⟨l, hl, hheld⟩⟩
    · refine ⟨trivial, fun state _ => ?_⟩
      cases state with
      | alive => exact ⟨Looked.refl g, fun h => (nomatch h)⟩
      | exited => exact ⟨Looked.refl g, fun h => (nomatch h)⟩
      | unknown => exact ⟨Looked.refl g, fun h => (nomatch h)⟩

namespace ObservedLink

variable {bytes : LinkRecord → Option ℕ} {self : ObservedLink} {d : LinkRequest} {g : LinkPhase}

theorem resolve_looks (self : ObservedLink) : Looks self.resolve := by
  unfold resolve
  split
  · refine (Looks.readCurrent _).bind fun r => ?_
    cases r with
    | ok current => exact Looks.pure _
    | error e => exact Looks.pure _
  · split_ifs
    · split
      · refine (currentForLaunch_looks _).bind fun r => ?_
        cases r with
        | ok current => exact Looks.pure _
        | error e => exact Looks.pure _
      · exact Looks.pure _
    · exact Looks.pure _

/-- A refreshed link: the same controller, whose record was seen stored for its manifest. -/
structure Refreshed (link : ObservedLink) (g : LinkPhase) (link' : ObservedLink) : Prop where
  same : SameController link link'
  inner : link'.inner = link.inner
  record : ∀ r, link'.record = some r →
    ∃ c, link'.current = some c ∧ (c.port, c.launchId, some r) ∈ g.seen

theorem refreshRuntime_wp (self : ObservedLink) (d : LinkRequest) (g : LinkPhase) :
    linkWp d (fun g' self' => Looked g g' ∧ self.Refreshed g' self') self.refreshRuntime g := by
  unfold refreshRuntime
  refine Prog.wp_bind.mpr (Prog.wp_mono (fun g₁ resolved h₁ => ?_) (resolve_looks self d g))
  refine Prog.wp_bind.mpr (Prog.wp_mono (fun g₂ binding h₂ => ?_) (runtimeBinding_looks _ _ _ d g₁))
  split
  · exact ⟨h₁.trans h₂, ⟨rfl, rfl⟩, rfl, fun r hr => (nomatch hr)⟩
  · rename_i current hcurrent
    refine ⟨trivial, fun reply _ => ?_⟩
    cases reply with
    | error e => exact ⟨h₁.trans h₂, ⟨rfl, rfl⟩, rfl, fun r hr => (nomatch hr)⟩
    | ok record =>
      refine ⟨(h₁.trans h₂).trans ⟨List.subset_cons_self _ _, rfl⟩, ⟨rfl, rfl⟩, rfl, fun r hr => ?_⟩
      have hrecord : record = some r := (Option.filter_eq_some_iff.mp hr).1
      subst hrecord
      exact ⟨current, rfl, List.mem_cons_self⟩

/-! ## Claims -/

/-- The lease of the link's manifest was seen to name the link's process. -/
def HeldSeen (self : ObservedLink) (g : LinkPhase) : Prop :=
  ∃ c r l, self.current = some c ∧ (c.port, c.launchId, some r) ∈ g.seen ∧ r.lease = some l ∧
    l.holder = self.holder

/-- What a claim leaves behind: the same controller; nothing stored where it fails; and where it reports the
lease as held, the record that says so. -/
structure Claimed (link : ObservedLink) (g g' : LinkPhase) (r : ObservedLink × Except IoError LeaseView) :
    Prop where
  seen : g.seen ⊆ g'.seen
  same : SameController link r.1
  failed : ∀ e, r.2 = .error e → g'.wrote = g.wrote
  held : ∀ view, r.2 = .ok view → view.state = .held → r.1.HeldSeen g'

theorem Claimed.mono {self self₁ : ObservedLink} {g g₁ g₂ : LinkPhase} {r : ObservedLink × Except IoError LeaseView}
    (hlooked : Looked g g₁) (hsame : SameController self self₁) (h : self₁.Claimed g₁ g₂ r) :
    self.Claimed g g₂ r :=
  ⟨List.Subset.trans hlooked.seen h.seen, SameController.trans hsame h.same,
    fun e he => (h.failed e he).trans hlooked.wrote, h.held⟩

theorem claimed_of_looked {self : ObservedLink} {g g' : LinkPhase} {self' : ObservedLink}
    {r : Except IoError LeaseView} (hlooked : Looked g g') (hsame : SameController self self')
    (hheld : ∀ view, r = .ok view → view.state = .held → self'.HeldSeen g') : self.Claimed g g' (self', r) :=
  ⟨hlooked.seen, hsame, fun _ _ => hlooked.wrote, hheld⟩

theorem claimLeaseFor_wp (expected : Option String) (hd : d.claimant = some self.holder) :
    linkWp d (fun g' r => self.Claimed g g' r) (self.claimLeaseFor bytes expected) g := by
  have hnone : ∀ view, (Except.ok LeaseView.unknown : Except IoError LeaseView) = .ok view →
      view.state = .held → False := by
    intro view hview hheld
    cases hview
    cases hheld
  unfold claimLeaseFor
  refine Prog.wp_bind.mpr (Prog.wp_mono (fun g₁ link h₁ => ?_) (refreshRuntime_wp self d g))
  obtain ⟨hlooked, hlink⟩ := h₁
  split
  · exact claimed_of_looked hlooked hlink.same nofun
  · split_ifs
    · exact claimed_of_looked hlooked hlink.same fun view hview hheld => (hnone view hview hheld).elim
    · split
      · exact claimed_of_looked hlooked hlink.same fun view hview hheld => (hnone view hview hheld).elim
      · rename_i c hc
        split_ifs
        · exact claimed_of_looked hlooked hlink.same nofun
        · have hlawful : Lawful d c.port c.launchId True
              (claimUpdate bytes c.launchId link.holder link.controlKey none) :=
            claimUpdate_lawful (hd.trans (congrArg some hlink.same.holder.symm))
          refine Prog.wp_issue_bind.mpr ⟨hlawful, fun reply _ => ?_⟩
          cases reply with
          | ok updated =>
            refine Prog.wp_bind.mpr (Prog.wp_mono (fun g₃ view h₃ => ?_)
              (recordLeaseView_looks (some updated) link.holder d _))
            obtain ⟨hlooked₃, hview⟩ := h₃
            refine ⟨?_, ⟨hlink.same.holder, hlink.same.controlKey⟩, nofun, fun view' heq hheld => ?_⟩
            · exact List.Subset.trans hlooked.seen
                (List.Subset.trans (List.subset_cons_self _ _) hlooked₃.seen)
            · cases heq
              obtain ⟨l, hl, hholder⟩ := hview hheld
              exact ⟨c, updated, l, hc, hlooked₃.seen List.mem_cons_self, hl, hholder⟩
          | error e =>
            simp only
            split_ifs
            · refine Prog.wp_bind.mpr (Prog.wp_mono (fun g₃ link₃ h₃ => ?_) (refreshRuntime_wp link d g₁))
              obtain ⟨hlooked₃, hlink₃⟩ := h₃
              refine Prog.wp_bind.mpr (Prog.wp_mono (fun g₄ view h₄ => ?_)
                (recordLeaseView_looks link₃.record link₃.holder d g₃))
              obtain ⟨hlooked₄, hview⟩ := h₄
              refine claimed_of_looked ((hlooked.trans hlooked₃).trans hlooked₄)
                (SameController.trans hlink.same hlink₃.same) fun view' heq hheld => ?_
              cases heq
              obtain ⟨l, hl, hholder⟩ := hview hheld
              obtain ⟨r, hr, hlease⟩ := Option.bind_eq_some_iff.mp hl
              obtain ⟨c₃, hc₃, hseen⟩ := hlink₃.record r hr
              exact ⟨c₃, r, l, hc₃, hlooked₄.seen hseen, hlease, hholder⟩
            · exact claimed_of_looked hlooked hlink.same nofun

theorem claimLease_wp (hd : d.claimant = some self.holder) :
    linkWp d (fun g' r => self.Claimed g g' r) (self.claimLease bytes) g := by
  unfold claimLease
  refine Prog.wp_bind.mpr (Prog.wp_mono (fun g₁ link h₁ => ?_) (refreshRuntime_wp self d g))
  obtain ⟨hlooked, hlink⟩ := h₁
  split
  · exact claimed_of_looked hlooked hlink.same nofun
  · split_ifs
    · refine claimed_of_looked hlooked hlink.same fun view heq hheld => ?_
      cases heq
      cases hheld
    · refine Prog.wp_mono (fun g₂ r h₂ => h₂.mono hlooked hlink.same)
        (claimLeaseFor_wp none (hd.trans (congrArg some hlink.same.holder.symm)))

/-! ## Admission -/

/-- The marker does not stand in the way of the call: there is none, or it is the active operation of this
very controller and the call carries its key and is one of its methods. -/
def MarkerAdmits (self : ObservedLink) (launchId method : String) (params : Json)
    (marker : Option TemporalOperation) : Prop :=
  ∀ operation, marker = some operation →
    operation.state = .active ∧ operation.key.runtime = launchId ∧ operation.holder = self.holder ∧
      operation.controlSessionKey = self.controlKey ∧
      params.get "_temporal_owner" = some operation.key.toValue ∧ method ∈ temporalMethods

/-- A mutation was admitted: no launch is bound, or the record of the bound launch was seen not to stand in
its way. -/
def Admitted (self : ObservedLink) (method : String) (params : Json) (g : LinkPhase) (self' : ObservedLink) :
    Prop :=
  self'.currentLocation = none ∨
    ∃ port launchId r, self'.currentLocation = some (port, launchId) ∧ (port, launchId, r) ∈ g.seen ∧
      self.MarkerAdmits launchId method params (r.bind LinkRecord.temporalOperation)

theorem markerAdmits_of_owned {self self' : ObservedLink} (hsame : SameController self self')
    {launchId method : String} {params : Json} {marker : Option TemporalOperation}
    (h : ¬ marker.any (fun operation => !self'.ownsTemporal launchId method params operation) = true) :
    self.MarkerAdmits launchId method params marker := by
  intro operation hop
  subst hop
  simp only [Option.any_some, Bool.not_eq_true, Bool.not_eq_false', ownsTemporal, Bool.and_eq_true,
    beq_iff_eq, List.contains_iff_mem] at h
  obtain ⟨⟨⟨⟨⟨hstate, hruntime⟩, hholder⟩, hkey⟩, hparams⟩, hmethod⟩ := h
  exact ⟨hstate, hruntime, hholder.trans hsame.holder, hkey.trans hsame.controlKey, hparams, hmethod⟩

/-- What `ensure_mutation_lease` leaves behind. -/
structure Ensured (link : ObservedLink) (method : String) (params : Json) (g : LinkPhase)
    (r : ObservedLink × Except LinkError Unit) : Prop where
  same : SameController link r.1
  admitted : r.2 = .ok () → link.Admitted method params g r.1

theorem ensureMutationLease_wp (method : String) (params : Json) (hd : d.claimant = some self.holder) :
    linkWp d (fun g' r => self.Ensured method params g' r) (self.ensureMutationLease bytes method params) g := by
  unfold ensureMutationLease
  refine Prog.wp_bind.mpr (Prog.wp_mono (fun g₁ r h₁ => ?_) (claimLease_wp hd))
  obtain ⟨link, result⟩ := r
  have hsame : SameController self link := h₁.same
  cases result with
  | error e => exact ⟨hsame, nofun⟩
  | ok view =>
    rcases view with ⟨state, pid⟩
    cases state with
    | held =>
      simp only
      split
      · exact ⟨hsame, fun _ => .inl ‹_›⟩
      · rename_i port launchId hlocation
        refine Prog.wp_issue_bind.mpr ⟨trivial, fun reply _ => ?_⟩
        cases reply with
        | error e => exact ⟨hsame, nofun⟩
        | ok record =>
          simp only
          split_ifs with hmarker
          · exact ⟨hsame, nofun⟩
          · refine Prog.wp_issue_bind.mpr ⟨trivial, fun reply _ => ?_⟩
            cases reply with
            | error e => exact ⟨hsame, nofun⟩
            | ok capsule =>
              refine ⟨hsame, fun _ => .inr ⟨port, launchId, record, hlocation, List.mem_cons_self, ?_⟩⟩
              exact markerAdmits_of_owned hsame hmarker
    | unknown =>
      simp only
      split_ifs with hfree
      · refine ⟨hsame, fun _ => .inl ?_⟩
        simp only [Bool.and_eq_true, Option.isNone_iff_eq_none] at hfree
        exact hfree.1
      · exact ⟨hsame, nofun⟩
    | occupied => exact ⟨hsame, nofun⟩
    | available => exact ⟨hsame, nofun⟩

/-! ## Observations and temporal operations -/

theorem refreshRuntime_same {link : ObservedLink} (h : SameController self link) :
    linkWp d (fun _ link' => SameController self link') link.refreshRuntime g :=
  Prog.wp_mono (fun _ _ h' => h.trans h'.2.same) (refreshRuntime_wp link d g)

theorem observe_wp {observation : ℕ → LinkRecord → LinkRecord} (hobs : ObservationKeeps observation)
    (hd : d.claimant = some self.holder) :
    linkWp d (fun _ link => SameController self link) (self.observe bytes observation) g := by
  have hlive : ∀ g {link : ObservedLink}, SameController self link →
      linkWp d (fun _ link' => SameController self link') (link.observeLive observation) g :=
    fun g link h => ⟨trivial, fun _ _ => ⟨h.holder, h.controlKey⟩⟩
  unfold observe
  refine Prog.wp_bind.mpr (Prog.wp_mono (fun g₁ link h₁ => ?_) (refreshRuntime_wp self d g))
  have hsame := h₁.2.same
  split
  · exact hlive g₁ hsame
  · refine Prog.wp_bind.mpr (Prog.wp_mono (fun g₂ r h₂ => ?_)
      (claimLease_wp (hd.trans (congrArg some hsame.holder.symm))))
    obtain ⟨link₂, result⟩ := r
    have hsame₂ : SameController self link₂ := hsame.trans h₂.same
    cases result with
    | error e => exact hsame₂
    | ok view =>
      simp only
      split_ifs
      · exact hsame₂
      · split
        · exact hlive g₂ hsame₂
        · refine Prog.wp_issue_bind.mpr ⟨observeUpdate_lawful hobs, fun reply _ => ?_⟩
          cases reply with
          | ok updated => exact refreshRuntime_same ⟨hsame₂.holder, hsame₂.controlKey⟩
          | error e => exact refreshRuntime_same hsame₂

theorem recordSuccess_wp (method : String) (result : Json) (hd : d.claimant = some self.holder) :
    linkWp d (fun _ link => SameController self link) (self.recordSuccess bytes method result) g :=
  observe_wp (observeSuccess_keeps _ _ _) hd

theorem recordFailure_wp (method : String) (error : LinkError) (hd : d.claimant = some self.holder) :
    linkWp d (fun _ link => SameController self link) (self.recordFailure bytes method error) g := by
  unfold recordFailure
  split
  all_goals first
    | exact ⟨rfl, rfl⟩
    | exact observe_wp (observeFailure_keeps _ _ _) hd

theorem beginTemporalControl_wp {link : ObservedLink} (key : OperationKey) :
    linkWp (.begin link key) (fun _ _ => True) (link.beginTemporalControl bytes key) g := by
  unfold beginTemporalControl
  split
  · exact trivial
  · refine Prog.wp_bind.mpr (Prog.wp_mono (fun g₁ r h₁ => ?_)
      (ensureMutationLease_wp "begin_temporal_control" (.obj []) rfl))
    obtain ⟨link₁, result⟩ := r
    have hsame : SameController link link₁ := h₁.same
    cases result with
    | error e => exact trivial
    | ok u =>
      simp only
      split
      · exact trivial
      · split_ifs
        · exact trivial
        · refine Prog.wp_issue_bind.mpr ⟨beginUpdate_lawful hsame, fun reply _ => ?_⟩
          cases reply with
          | ok updated => exact trivial
          | error e => exact trivial

theorem finishTemporalControl_wp {link : ObservedLink} (key : OperationKey) (verified : Bool) :
    linkWp (.finish link key verified) (fun _ _ => True) (link.finishTemporalControl bytes key verified) g := by
  unfold finishTemporalControl
  refine Prog.wp_bind.mpr (Prog.wp_mono (fun g₁ link₁ h₁ => ?_) (refreshRuntime_wp link _ g))
  split
  · exact trivial
  · split
    · exact trivial
    · split
      · exact trivial
      · refine Prog.wp_issue_bind.mpr ⟨finishUpdate_lawful h₁.2.same, fun reply _ => ?_⟩
        cases reply with
        | ok updated => exact trivial
        | error e => exact trivial

theorem forward_wp (method : String) (params : Json) (hd : d.claimant = some self.holder) :
    linkWp d (fun _ _ => True) (self.forward bytes method params) g := by
  unfold forward
  refine Prog.wp_bind.mpr (Prog.wp_mono (fun g₁ r _ => ?_) (Looks.innerCall method params d g))
  obtain ⟨result, inner⟩ := r
  cases result with
  | ok value =>
    exact Prog.wp_bind.mpr (Prog.wp_mono (fun _ _ _ => trivial) (recordSuccess_wp method value hd))
  | error e =>
    exact Prog.wp_bind.mpr (Prog.wp_mono (fun _ _ _ => trivial) (recordFailure_wp method e hd))

theorem call_wp (method : String) (params : Json) (hd : d.claimant = some self.holder) :
    linkWp d (fun _ _ => True) (self.call bytes method params) g := by
  unfold call
  split_ifs
  · refine Prog.wp_bind.mpr (Prog.wp_mono (fun g₁ r h₁ => ?_) (ensureMutationLease_wp method params hd))
    obtain ⟨link₁, result⟩ := r
    cases result with
    | error e => exact trivial
    | ok u => exact forward_wp method params (hd.trans (congrArg some h₁.same.holder.symm))
  · exact forward_wp method params hd

end ObservedLink

/-! ## The rule -/

def linkPost (d : LinkRequest) (g : LinkPhase) (r : LinkReturn) : Prop :=
  match d, r with
  | .claim _ _ _ _ _, .claimed (.error _) => g.wrote = false
  | .claim port launchId holder _ _, .claimed (.ok (r, view)) =>
    view.state = .held → (port, launchId, some r) ∈ g.seen ∧ ∃ l, r.lease = some l ∧ l.holder = holder
  | .acquire _ _, .lease _ (.error _) => g.wrote = false
  | .acquire link _, .lease link' (.ok view) =>
    view.state = .held → link'.holder = link.holder ∧ link'.HeldSeen g
  | .ensure link method params, .done link' (.ok ()) => link.Admitted method params g link'
  | _, _ => True

theorem linkBody_wp (bytes : LinkRecord → Option ℕ) (d : LinkRequest) :
    linkWp d (linkPost d) (linkBody bytes d) ⟨[], false⟩ := by
  cases d with
  | claim port launchId holder controlKey token =>
    refine Prog.wp_issue_bind.mpr ⟨claimUpdate_lawful rfl, fun reply _ => ?_⟩
    cases reply with
    | error e => exact rfl
    | ok r =>
      refine Prog.wp_bind.mpr (Prog.wp_mono (fun g view h => ?_) (recordLeaseView_looks (some r) holder _ _))
      exact fun hheld => ⟨h.1.seen List.mem_cons_self, h.2 hheld⟩
  | acquire link expected =>
    refine Prog.wp_bind.mpr (Prog.wp_mono (fun g r h => ?_) (ObservedLink.claimLeaseFor_wp expected rfl))
    obtain ⟨link', result⟩ := r
    cases result with
    | error e => exact h.failed e rfl
    | ok view => exact fun hheld => ⟨h.same.holder, h.held view rfl hheld⟩
  | ensure link method params =>
    refine Prog.wp_bind.mpr (Prog.wp_mono (fun g r h => ?_) (ObservedLink.ensureMutationLease_wp method params rfl))
    obtain ⟨link', result⟩ := r
    cases result with
    | error e => exact trivial
    | ok u => exact h.admitted rfl
  | success link method result =>
    exact Prog.wp_bind.mpr (Prog.wp_mono (fun _ _ _ => trivial) (ObservedLink.recordSuccess_wp method result rfl))
  | failure link method error =>
    exact Prog.wp_bind.mpr (Prog.wp_mono (fun _ _ _ => trivial) (ObservedLink.recordFailure_wp method error rfl))
  | begin link key =>
    refine Prog.wp_bind.mpr (Prog.wp_mono (fun g r _ => ?_) (ObservedLink.beginTemporalControl_wp key))
    exact trivial
  | finish link key verified =>
    refine Prog.wp_bind.mpr (Prog.wp_mono (fun g r _ => ?_) (ObservedLink.finishTemporalControl_wp key verified))
    exact trivial
  | call link method params =>
    refine Prog.wp_bind.mpr (Prog.wp_mono (fun g r _ => ?_) (ObservedLink.call_wp method params rfl))
    exact trivial
  | commit prepared manifest => exact ⟨rfl, fun _ _ => trivial⟩
  | exit p => exact ⟨rfl, fun _ _ => trivial⟩

def linkRule (bytes : LinkRecord → Option ℕ) : Rule (linkMachine bytes) LinkPhase where
  Inv := LinkInv
  Guar := WorldMove
  Know _ g own _ := LinkKnow g own
  allowed := linkAllowed
  next := linkNext
  can _ _ := True
  post := linkPost
  start _ := ⟨[], false⟩
  keeps _ hinv _ hallowed := ⟨(linkExec_move hinv hallowed).inv hinv, linkExec_move hinv hallowed⟩
  learns i _ _ hknow _ hr := ⟨trivial, linkExec_know hknow hr i⟩
  stable _ _ hknow := hknow
  begins _ := LinkKnow.start
  body := linkBody_wp bytes

end Emucap.Live
