import Mathlib.Data.List.Nodup
import Emucap.Live.Generations

/-!
# Launchers on one port

Whatever order the operations of the launchers come in, a generation that has been replaced does not come back: every
launcher publishes under its own launch id, only over the generation its `prepare` saw. `LaunchView` is what a launcher
knows of its own progress, and `GenerationsInv` ties the views of all launchers to the log and to the store.
-/

namespace Emucap.Live

open Emucap.Lib

/-! ## What an operation does -/

theorem RuntimeStore.readCurrent_eq_ok {port : ℕ} {file : Except IoError (Option CurrentManifest)}
    {current : Option CurrentManifest} (h : RuntimeStore.readCurrent port file = .ok current) :
    file = .ok current := by
  unfold RuntimeStore.readCurrent at h
  rcases file with e | _ | m
  · cases h
  · exact h
  · simp only [bind, Except.bind] at h
    split at h
    · cases h
    · split_ifs at h
      exact h

theorem RuntimeStore.readCurrent_stored {port : ℕ} {read : Except IoError Unit} {stored m : Option CurrentManifest}
    (h : RuntimeStore.readCurrent port (read.map fun _ => stored) = .ok m) : m = stored := by
  have h := RuntimeStore.readCurrent_eq_ok h
  rcases read with e | ⟨⟩
  · cases h
  · exact (Except.ok.inj h).symm

namespace PreparedGeneration

variable {self : PreparedGeneration} {manifest : CurrentManifest} {w : GenerationWorld} {s : PortStore}

theorem commitCheck_eq_ok (h : self.commitCheck manifest w s = .ok ()) :
    manifest.launchId = self.launchId ∧ s.currentId = self.expectedCurrentLaunchId ∧
      ∀ previous, self.expectedCurrentLaunchId = some previous →
        RuntimeStore.generationCaptureBlocker self.port previous w s = .ok none := by
  unfold commitCheck at h
  obtain ⟨-, -, h⟩ := bind_eq_ok.mp h
  obtain ⟨⟨hid, -⟩, h⟩ := require_bind_eq_ok.mp h
  obtain ⟨-, -, h⟩ := bind_eq_ok.mp h
  obtain ⟨observed, hread, h⟩ := bind_eq_ok.mp h
  obtain ⟨hexpected, h⟩ := require_bind_eq_ok.mp h
  rw [RuntimeStore.readCurrent_stored hread] at hexpected
  refine ⟨hid, hexpected, fun previous hprevious => ?_⟩
  rw [hprevious] at h
  obtain ⟨blocker, hblocker, h⟩ := bind_eq_ok.mp h
  rcases blocker with _ | reason
  · exact hblocker
  · cases h

/-- What `commit` can do: nothing, with an error; or replace the expected generation, and touch no more of
the committed one than that. -/
theorem commit_cases (manifestBytes : CurrentManifest → Option ℕ) (self : PreparedGeneration)
    (manifest : CurrentManifest) (w : GenerationWorld) (s : PortStore) :
    (∃ e, self.commit manifestBytes manifest w s = (.error e, s)) ∨
    (self.commitCheck manifest w s = .ok () ∧ ∃ r s', self.commit manifestBytes manifest w s = (r, s') ∧
      s'.current = some manifest ∧ s'.generations self.launchId = s.generations self.launchId) := by
  unfold commit
  rcases hcheck : self.commitCheck manifest w s with e | ⟨⟩
  · exact .inl ⟨e, rfl⟩
  · rcases writeAtomicJson_cases manifestBytes w.publish manifest s.current with ⟨e, h⟩ | ⟨-, h⟩ | ⟨e, -, h⟩
    · exact .inl ⟨e, by simp only [h]⟩
    · refine .inr ⟨rfl, .ok (), RuntimeStore.cleanupOtherGenerations self.launchId w ⟨some manifest, s.generations⟩,
        by simp only [h], rfl, ?_⟩
      simp [RuntimeStore.cleanupOtherGenerations]
    · exact .inr ⟨rfl, .error e, ⟨some manifest, s.generations⟩, by simp only [h], rfl, rfl⟩

end PreparedGeneration

section exec

variable {manifestBytes : CurrentManifest → Option ℕ} {capsuleBytes : CaptureCapsule → Option ℕ} {port : ℕ}
  {w : GenerationWorld} {s : PortStore}

theorem published_cases (publish : Publish) (made s : PortStore) :
    published publish made s = (.ok (), made) ∨
      ∃ e, published publish made s = (.error e, s) ∨ published publish made s = (.error e, made) := by
  cases publish with
  | stored => exact .inl rfl
  | refused e => exact .inr ⟨e, .inl rfl⟩
  | unconfirmed e => exact .inr ⟨e, .inr rfl⟩

theorem PortStore.createDir_auth (s : PortStore) (launchId id : String) :
    (s.createDir launchId).auth id = s.auth id := by
  unfold createDir auth
  by_cases h : id = launchId
  · subst h
    rw [setGeneration_self]
    cases s.generations id <;> rfl
  · rw [setGeneration_ne _ _ h]

theorem capturedExec_frame (capsuleBytes : CaptureCapsule → Option ℕ) (w : GenerationWorld) (s : PortStore)
    (launchId : String) (o : CaptureOp) :
    (capturedExec capsuleBytes launchId w s o).2.current = s.current ∧
      ∀ id, (capturedExec capsuleBytes launchId w s o).2.auth id = s.auth id := by
  cases o with
  | update f =>
    refine ⟨rfl, fun id => ?_⟩
    unfold capturedExec PortStore.auth
    simp only
    by_cases h : id = launchId
    · subst h
      rw [PortStore.setGeneration_self]
      cases s.generations id <;> rfl
    · rw [PortStore.setGeneration_ne _ _ h]
  | _ => exact ⟨rfl, fun _ => rfl⟩

end exec

/-! ## What a launcher knows -/

/-- How far a launcher is: before the read of `prepare`, before its token is written, prepared, between the
read of `abort` and the removal, or none of these. -/
inductive LaunchPhase where
  | fresh
  | preparing
  | prepared
  | removing
  | idle
  deriving DecidableEq

/-- What a launcher knows: the current generation that its `prepare` saw, and whether a `commit` of it
succeeded. -/
structure LaunchView where
  phase : LaunchPhase
  observed : Option (Option String)
  committed : Bool

def LaunchView.start : LaunchView := ⟨.fresh, none, false⟩

/-- A launcher works on its own generation, publishes it only over the generation it saw, and removes it
only after a look at `current.json`. -/
def launchAllowed (l : Launch) (g : LaunchView) : GenerationOp → Prop
  | .readCurrent => g.phase = .fresh ∨ g.phase = .prepared ∨ g.phase = .idle
  | .createDir launchId => launchId = l.launchId ∧ g.phase = .preparing
  | .writeAuth launchId token => launchId = l.launchId ∧ token = l.reclaimToken ∧ g.phase = .preparing
  | .commit prepared _ =>
    prepared.launchId = l.launchId ∧ g.phase = .prepared ∧ g.observed = some prepared.expectedCurrentLaunchId
  | .remove launchId => launchId = l.launchId ∧ g.phase = .removing
  | .capture _ _ => False

def launchNext (l : Launch) (g : LaunchView) (o : GenerationOp) : o.Reply → LaunchView :=
  match o with
  | .readCurrent => fun
    | .error _ => { g with phase := .idle }
    | .ok current =>
      if g.phase = .fresh then { g with phase := .preparing, observed := some (current.map (·.launchId)) }
      else if current.map (·.launchId) = some l.launchId then { g with phase := .idle }
      else { g with phase := .removing }
  | .writeAuth _ _ => fun
    | .error _ => { g with phase := .idle }
    | .ok () => { g with phase := .prepared }
  | .commit _ _ => fun
    | .error _ => g
    | .ok () => { g with committed := true }
  | .remove _ => fun _ => { g with phase := .idle }
  | _ => fun _ => g

def generationAllowed : GenerationCall → LaunchView → GenerationOp → Prop
  | .launch l, g, o => launchAllowed l g o
  | .capture _ _, _, .capture _ _ => True
  | .capture _ _, _, _ => False

def generationNext : GenerationCall → LaunchView → (o : GenerationOp) → o.Reply → LaunchView
  | .launch l, g, o, r => launchNext l g o r
  | .capture _ _, g, _, _ => g

/-- What a launcher that returns has been given, and that a successful `commit` is one it knows of. -/
def generationPost (port : ℕ) : GenerationCall → LaunchView → GenerationReturn → Prop
  | .launch l, g, .launched (.ok outcome) =>
    outcome.prepared.reclaimToken = l.reclaimToken ∧ outcome.prepared.generation.port = port ∧
      outcome.prepared.generation.launchId = l.launchId ∧
      g.observed = some outcome.prepared.generation.expectedCurrentLaunchId ∧
      (.ok () ∈ outcome.commits → g.committed = true)
  | _, _, _ => True

section body

variable {port : ℕ} {l : Launch}

abbrev launchWp {α : Type} (l : Launch) (post : LaunchView → α → Prop) (x : GenerationProg α) (g : LaunchView) :
    Prop :=
  x.wp (launchAllowed l) (launchNext l) (fun _ _ => True) post g

theorem prepare_wp (port : ℕ) (l : Launch) :
    launchWp l (fun g r => ∀ p, r = .ok p → g.phase = .prepared ∧ g.committed = false ∧
        g.observed = some p.generation.expectedCurrentLaunchId ∧ p.reclaimToken = l.reclaimToken ∧
        p.generation.port = port ∧ p.generation.launchId = l.launchId)
      (RuntimeStore.prepare port l) .start := by
  unfold RuntimeStore.prepare
  rw [launchWp, Prog.wp_seq, Prog.wp_attempt]
  refine ⟨.inl rfl, fun current _ => ?_⟩
  rcases current with e | current
  · exact nofun
  simp only [id, launchNext, LaunchView.start, if_true]
  rw [Prog.wp_seq, Prog.wp_attempt]
  refine ⟨⟨rfl, rfl⟩, fun made _ => ?_⟩
  rcases made with e | ⟨⟩
  · exact nofun
  simp only [id, launchNext]
  rw [Prog.wp_seq, Prog.wp_attempt]
  refine ⟨⟨rfl, rfl⟩, fun made _ => ?_⟩
  rcases made with e | ⟨⟩
  · exact nofun
  simp only [id, launchNext]
  rw [Prog.wp_seq, Prog.wp_attempt]
  refine ⟨⟨rfl, rfl, rfl⟩, fun written _ => ?_⟩
  rcases written with e | ⟨⟩
  · exact nofun
  · rintro p hp
    obtain rfl := Except.ok.inj hp
    exact ⟨rfl, rfl, rfl, rfl, rfl, rfl⟩

theorem commits_wp {p : PreparedGeneration} {manifests : List CurrentManifest} {g : LaunchView}
    (hid : p.launchId = l.launchId) (hphase : g.phase = .prepared)
    (hobserved : g.observed = some p.expectedCurrentLaunchId) :
    launchWp l (fun g' results => g'.phase = .prepared ∧ g'.observed = g.observed ∧
        (g.committed = true ∨ .ok () ∈ results → g'.committed = true)) (p.commits manifests) g := by
  induction manifests generalizing g with
  | nil =>
    refine ⟨hphase, rfl, fun h => ?_⟩
    rcases h with h | h
    · exact h
    · cases h
  | cons manifest rest ih =>
    unfold PreparedGeneration.commits
    refine Prog.wp_issue_bind.mpr ⟨⟨hid, hphase, hobserved⟩, fun result _ => ?_⟩
    rcases result with e | ⟨⟩
    · refine Prog.wp_bind.mpr (Prog.wp_mono (fun g' results h => ?_) (ih hphase hobserved))
      refine ⟨h.1, h.2.1, fun hcommitted => ?_⟩
      have hcommitted : g.committed = true ∨ .ok () ∈ results := by simpa using hcommitted
      exact h.2.2 hcommitted
    · refine Prog.wp_bind.mpr (Prog.wp_mono (fun g' results h => ?_)
        (ih (g := { g with committed := true }) hphase hobserved))
      exact ⟨h.1, h.2.1, fun _ => h.2.2 (.inl rfl)⟩

theorem abort_wp {p : PreparedGeneration} {g : LaunchView} (hid : p.launchId = l.launchId)
    (hphase : g.phase = .prepared ∨ g.phase = .idle) :
    launchWp l (fun g' _ => g'.phase = .idle ∧ g'.observed = g.observed ∧ g'.committed = g.committed)
      p.abort g := by
  unfold PreparedGeneration.abort
  rw [launchWp, Prog.wp_seq, Prog.wp_attempt]
  refine ⟨.inr hphase, fun current _ => ?_⟩
  have hfresh : g.phase ≠ .fresh := by
    rcases hphase with h | h <;> simp [h]
  rcases current with e | current
  · exact ⟨rfl, rfl, rfl⟩
  simp only [id, launchNext, if_neg hfresh]
  by_cases hcurrent : current.map (·.launchId) = some l.launchId
  · rw [if_pos hcurrent]
    refine Prog.wp_failIf_then (fun _ => ⟨rfl, rfl, rfl⟩) fun hno => ?_
    obtain ⟨m, rfl, hm⟩ := Option.map_eq_some_iff.mp hcurrent
    simp [hm, hid] at hno
  · rw [if_neg hcurrent]
    refine Prog.wp_failIf_then (fun hyes => ?_) fun _ => ⟨⟨hid, rfl⟩, fun _ _ => ⟨rfl, rfl, rfl⟩⟩
    rcases current with _ | m
    · cases hyes
    · simp only [Option.any_some, beq_iff_eq] at hyes
      exact absurd (by simp [hyes, hid]) hcurrent

theorem aborts_wp {p : PreparedGeneration} {n : ℕ} {g : LaunchView} (hid : p.launchId = l.launchId)
    (hphase : g.phase = .prepared ∨ g.phase = .idle) :
    launchWp l (fun g' _ => g'.observed = g.observed ∧ g'.committed = g.committed) (p.aborts n) g := by
  induction n generalizing g with
  | zero => exact ⟨rfl, rfl⟩
  | succ n ih =>
    unfold PreparedGeneration.aborts
    refine Prog.wp_bind.mpr (Prog.wp_mono (fun g' result h => ?_) (abort_wp hid hphase))
    refine Prog.wp_bind.mpr (Prog.wp_mono (fun g'' results h' => ?_) (ih (.inr h.1)))
    exact ⟨h'.1.trans h.2.1, h'.2.trans h.2.2⟩

theorem launch_wp :
    launchWp l (fun g r => generationPost port (.launch l) g (.launched r)) (l.program port) .start := by
  unfold Launch.program
  refine Prog.wp_bind.mpr (Prog.wp_mono (fun g r h => ?_) (prepare_wp port l))
  rcases r with e | p
  · trivial
  obtain ⟨hphase, -, hobserved, htoken, hport, hid⟩ := h p rfl
  refine Prog.wp_bind.mpr (Prog.wp_mono (fun g' results h' => ?_) (commits_wp hid hphase hobserved))
  refine Prog.wp_bind.mpr (Prog.wp_mono (fun g'' _ h'' => ?_) (aborts_wp hid (.inl h'.1)))
  refine ⟨htoken, hport, hid, ?_, fun hok => ?_⟩
  · rw [h''.1, h'.2.1, hobserved]
  · rw [h''.2]
    exact h'.2.2 (.inr hok)

end body

/-! ## The invariant -/

abbrev GenerationEvent := Event PortStore GenerationWorld GenerationCall

/-- The operation changes `current.json`. -/
def Replaces (e : GenerationEvent) : Prop := e.after.current ≠ e.before.current

instance (e : GenerationEvent) : Decidable (Replaces e) := inferInstanceAs (Decidable (_ ≠ _))

/-- The generations that have been replaced, the latest first. -/
def replacedIds (log : List GenerationEvent) : List (Option String) :=
  (log.filter fun e => Replaces e).map fun e => e.before.currentId

/-- The current generation at the first operation of a call. The first operation of a launcher is the read
of its `prepare`. -/
def firstSeen (i : ℕ) (log : List GenerationEvent) : Option (Option String) :=
  (own i log).getLast?.map fun e => e.before.currentId

/-- The views of the launchers against the log and the store: a replacement is by a launcher, of the
generation it saw and by its own; a replaced generation is not replaced again and does not come back; what
a launcher saw is current or was replaced; and the generation that is current, or that may still become so,
has its token. -/
structure GenerationsInv (known : List (GenerationCall × LaunchView)) (log : List GenerationEvent)
    (s : PortStore) : Prop where
  replaced : ∀ e ∈ log, Replaces e → ∃ l g, known[e.thread]? = some (.launch l, g) ∧
    e.after.currentId = some l.launchId ∧ g.observed = some e.before.currentId
  once : (replacedIds log).Nodup
  gone : s.currentId ∉ replacedIds log
  source : ∀ id, id = s.currentId ∨ id ∈ replacedIds log →
    id = none ∨ ∃ e ∈ log, Replaces e ∧ e.after.currentId = id
  seen : ∀ (i : ℕ) l g id, known[i]? = some (.launch l, g) → g.observed = some id →
    (id = s.currentId ∨ id ∈ replacedIds log) ∧ firstSeen i log = some id
  fresh : ∀ (i : ℕ) l g, known[i]? = some (.launch l, g) → g.phase = .fresh → own i log = [] ∧ g.observed = none
  token : ∀ (i : ℕ) l g, known[i]? = some (.launch l, g) →
    s.currentId = some l.launchId ∨ (g.phase = .prepared ∧ g.observed = some s.currentId) →
    s.auth l.launchId = some l.reclaimToken
  removing : ∀ (i : ℕ) l g, known[i]? = some (.launch l, g) → g.phase = .removing →
    s.currentId ≠ some l.launchId
  committed : ∀ (i : ℕ) l g, known[i]? = some (.launch l, g) → g.committed = true →
    ∃ e ∈ log, e.thread = i ∧ Replaces e

def FreshLaunches (calls : List GenerationCall) : Prop := Distinct GenerationCall.launchId? calls

section steps

variable {known : List (GenerationCall × LaunchView)} {log : List GenerationEvent} {s s' : PortStore} {i : ℕ}
  {d : GenerationCall} {g g' : LaunchView} {w : GenerationWorld}

theorem view_cases {j : ℕ} {l : Launch} {g₀ : LaunchView} (h : (known.set i (d, g'))[j]? = some (.launch l, g₀)) :
    (j = i ∧ d = .launch l ∧ g₀ = g') ∨ (j ≠ i ∧ known[j]? = some (.launch l, g₀)) := by
  by_cases hij : i = j
  · subst hij
    have hlt : i < known.length := by simpa using (List.getElem?_eq_some_iff.mp h).1
    rw [List.getElem?_set_self hlt] at h
    obtain ⟨hd, hg⟩ := Prod.mk.inj (Option.some.inj h)
    exact .inl ⟨rfl, hd, hg.symm⟩
  · rw [List.getElem?_set_ne hij] at h
    exact .inr ⟨Ne.symm hij, h⟩

theorem own_cons_self {j : ℕ} {e : GenerationEvent} (h : j = e.thread) : own j (e :: log) = e :: own j log := by
  simp [own, h]

theorem own_cons_ne {j : ℕ} {e : GenerationEvent} (h : j ≠ e.thread) : own j (e :: log) = own j log := by
  simp [own, Ne.symm h]

theorem firstSeen_cons {j : ℕ} {e : GenerationEvent} {id : Option String} (h : firstSeen j log = some id) :
    firstSeen j (e :: log) = some id := by
  unfold firstSeen at h ⊢
  by_cases hj : j = e.thread
  · rw [own_cons_self hj]
    obtain ⟨e₀, he₀, -⟩ := Option.map_eq_some_iff.mp h
    rw [List.getLast?_cons, he₀]
    rw [he₀] at h
    exact h
  · rw [own_cons_ne hj]
    exact h

theorem replacedIds_cons_of_not (log : List GenerationEvent) {e : GenerationEvent} (h : ¬ Replaces e) :
    replacedIds (e :: log) = replacedIds log := by
  simp [replacedIds, h]

theorem replacedIds_cons (log : List GenerationEvent) {e : GenerationEvent} (h : Replaces e) :
    replacedIds (e :: log) = e.before.currentId :: replacedIds log := by
  simp [replacedIds, h]

theorem currentId_eq_of_current (h : s'.current = s.current) : s'.currentId = s.currentId := by
  simp only [PortStore.currentId, h]

theorem GenerationsInv.publisher (h : GenerationsInv known log s) {id : String}
    (hid : some id = s.currentId ∨ some id ∈ replacedIds log) :
    ∃ e ∈ log, Replaces e ∧ ∃ l g, known[e.thread]? = some (.launch l, g) ∧ l.launchId = id ∧
      g.observed = some e.before.currentId := by
  rcases h.source _ hid with hnone | ⟨e, he, hr, hafter⟩
  · cases hnone
  · obtain ⟨l, g, hknown, hl, hobserved⟩ := h.replaced e he hr
    exact ⟨e, he, hr, l, g, hknown, Option.some.inj (hl.symm.trans hafter), hobserved⟩

theorem mem_replacedIds {e : GenerationEvent} (he : e ∈ log) (hr : Replaces e) :
    e.before.currentId ∈ replacedIds log :=
  List.mem_map.mpr ⟨e, List.mem_filter.mpr ⟨he, by simpa using hr⟩, rfl⟩

theorem GenerationsInv.unpublished (h : GenerationsInv known log s) (hcalls : FreshLaunches (known.map Prod.fst))
    {l : Launch} (hi : known[i]? = some (.launch l, g)) (hobserved : g.observed = some s.currentId) :
    ¬ (some l.launchId = s.currentId ∨ some l.launchId ∈ replacedIds log) := by
  intro hid
  obtain ⟨e, he, hr, l', g', hknown, hl, hseen⟩ := h.publisher hid
  have hthread : e.thread = i := by
    refine hcalls.unique (a := .launch l') (b := .launch l) (k := l.launchId) ?_ ?_ (congrArg some hl) rfl
    · simp [hknown]
    · simp [hi]
  rw [hthread, hi] at hknown
  obtain ⟨-, rfl⟩ := Prod.mk.inj (Option.some.inj hknown)
  have hbefore := Option.some.inj (hobserved.symm.trans hseen)
  exact h.gone (hbefore ▸ mem_replacedIds he hr)

theorem GenerationsInv.begins (h : GenerationsInv known log s)
    (hcalls : FreshLaunches (known.map Prod.fst ++ [d])) (hown : own known.length log = []) :
    GenerationsInv (known ++ [(d, .start)]) log s := by
  have hview : ∀ (j : ℕ) l g, (known ++ [(d, LaunchView.start)])[j]? = some (.launch l, g) →
      known[j]? = some (.launch l, g) ∨ (j = known.length ∧ d = .launch l ∧ g = .start) := by
    intro j l g hj
    rcases Nat.lt_or_ge j known.length with hlt | hge
    · rw [List.getElem?_append_left hlt] at hj
      exact .inl hj
    · rw [List.getElem?_append_right hge, List.getElem?_singleton] at hj
      split_ifs at hj with hlen
      obtain ⟨hd, hg⟩ := Prod.mk.inj (Option.some.inj hj)
      exact .inr ⟨by omega, hd, hg.symm⟩
  refine ⟨fun e he hr => ?_, h.once, h.gone, h.source, ?_, ?_, ?_, ?_, ?_⟩
  · obtain ⟨l, g, hknown, hids⟩ := h.replaced e he hr
    refine ⟨l, g, ?_, hids⟩
    rw [List.getElem?_append_left (List.getElem?_eq_some_iff.mp hknown).1]
    exact hknown
  · intro j l g id hj hobserved
    rcases hview j l g hj with hj | ⟨-, -, rfl⟩
    · exact h.seen j l g id hj hobserved
    · cases hobserved
  · intro j l g hj hphase
    rcases hview j l g hj with hj | ⟨rfl, -, rfl⟩
    · exact h.fresh j l g hj hphase
    · exact ⟨hown, rfl⟩
  · intro j l g hj hready
    rcases hview j l g hj with hj | ⟨rfl, rfl, rfl⟩
    · exact h.token j l g hj hready
    · rcases hready with hcurrent | ⟨hphase, -⟩
      · obtain ⟨e, -, -, l', g', hknown, hl, -⟩ := h.publisher (.inl hcurrent.symm)
        have hlt := (List.getElem?_eq_some_iff.mp hknown).1
        have hthread : e.thread = known.length := by
          refine hcalls.unique (a := .launch l') (b := .launch l) (k := l.launchId) ?_ ?_ (congrArg some hl) rfl
          · rw [List.getElem?_append_left (by simpa using hlt)]
            simp [hknown]
          · simp
        omega
      · cases hphase
  · intro j l g hj hphase
    rcases hview j l g hj with hj | ⟨-, -, rfl⟩
    · exact h.removing j l g hj hphase
    · cases hphase
  · intro j l g hj hcommitted
    rcases hview j l g hj with hj | ⟨-, -, rfl⟩
    · exact h.committed j l g hj hcommitted
    · cases hcommitted

/-- What a call that leaves `current.json` alone may do to its view and to the tokens. -/
structure Keeps (d : GenerationCall) (g g' : LaunchView) (s s' : PortStore) : Prop where
  current : s'.current = s.current
  observed : g'.observed = g.observed ∨ (g.phase = .fresh ∧ g'.observed = some s.currentId)
  fresh : ∀ l, d = .launch l → g'.phase ≠ .fresh
  committed : g'.committed = g.committed
  removing : ∀ l, d = .launch l → g'.phase = .removing → s.currentId ≠ some l.launchId
  others : ∀ id, d.launchId? ≠ some id → s'.auth id = s.auth id
  token : ∀ l, d = .launch l →
    s.currentId = some l.launchId ∨ (g'.phase = .prepared ∧ g'.observed = some s.currentId) →
    s'.auth l.launchId = some l.reclaimToken

theorem GenerationsInv.keeps (h : GenerationsInv known log s) (hcalls : FreshLaunches (known.map Prod.fst))
    (hi : known[i]? = some (d, g)) (hk : Keeps d g g' s s') :
    GenerationsInv (known.set i (d, g')) (⟨i, d, w, s, s'⟩ :: log) s' := by
  have hcurrent := currentId_eq_of_current hk.current
  have hnot : ¬ Replaces ⟨i, d, w, s, s'⟩ := fun hr => hr hk.current
  have hids := replacedIds_cons_of_not log hnot
  have hset : ∀ (j : ℕ) l g₀, known[j]? = some (.launch l, g₀) →
      ∃ g₁, (known.set i (d, g'))[j]? = some (.launch l, g₁) ∧ ∀ id, g₀.observed = some id → g₁.observed = some id := by
    intro j l g₀ hj
    by_cases hij : i = j
    · subst hij
      obtain ⟨rfl, rfl⟩ := Prod.mk.inj (Option.some.inj (hi.symm.trans hj))
      refine ⟨g', List.getElem?_set_self (List.getElem?_eq_some_iff.mp hi).1, fun id hid => ?_⟩
      rcases hk.observed with hsame | ⟨hfresh, -⟩
      · rw [hsame, hid]
      · rw [(h.fresh i l g hi hfresh).2] at hid
        cases hid
    · exact ⟨g₀, by rw [List.getElem?_set_ne hij]; exact hj, fun _ hid => hid⟩
  refine ⟨?_, hids ▸ h.once, ?_, ?_, ?_, ?_, ?_, ?_, ?_⟩
  · intro e he hr
    rcases List.mem_cons.mp he with rfl | he
    · exact absurd hr hnot
    · obtain ⟨l, g₀, hknown, hafter, hobserved⟩ := h.replaced e he hr
      obtain ⟨g₁, hknown', hsame⟩ := hset _ l g₀ hknown
      exact ⟨l, g₁, hknown', hafter, hsame _ hobserved⟩
  · rw [hids, hcurrent]
    exact h.gone
  · rw [hids, hcurrent]
    intro id hid
    rcases h.source id hid with hnone | ⟨e, he, hr, hafter⟩
    · exact .inl hnone
    · exact .inr ⟨e, List.mem_cons_of_mem _ he, hr, hafter⟩
  · rw [hids, hcurrent]
    intro j l g₀ id hj hobserved
    rcases view_cases hj with ⟨rfl, rfl, rfl⟩ | ⟨-, hj⟩
    · rcases hk.observed with hsame | ⟨hfresh, hnew⟩
      · obtain ⟨hwhere, hfirst⟩ := h.seen j l g id hi (hsame ▸ hobserved)
        exact ⟨hwhere, firstSeen_cons hfirst⟩
      · obtain rfl := Option.some.inj (hnew.symm.trans hobserved)
        refine ⟨.inl rfl, ?_⟩
        rw [firstSeen, own_cons_self (e := ⟨j, _, _, _, _⟩) rfl, (h.fresh j l g hi hfresh).1]
        rfl
    · obtain ⟨hwhere, hfirst⟩ := h.seen j l g₀ id hj hobserved
      exact ⟨hwhere, firstSeen_cons hfirst⟩
  · intro j l g₀ hj hphase
    rcases view_cases hj with ⟨rfl, rfl, rfl⟩ | ⟨hne, hj⟩
    · exact absurd hphase (hk.fresh l rfl)
    · rw [own_cons_ne hne]
      exact h.fresh j l g₀ hj hphase
  · rw [hcurrent]
    intro j l g₀ hj hready
    rcases view_cases hj with ⟨rfl, rfl, rfl⟩ | ⟨hne, hj⟩
    · exact hk.token l rfl hready
    · rw [hk.others, h.token j l g₀ hj hready]
      intro hd
      refine hne (hcalls.unique (a := .launch l) (b := d) (k := l.launchId) ?_ ?_ rfl hd)
      · simp [hj]
      · simp [hi]
  · rw [hcurrent]
    intro j l g₀ hj hphase
    rcases view_cases hj with ⟨rfl, rfl, rfl⟩ | ⟨-, hj⟩
    · exact hk.removing l rfl hphase
    · exact h.removing j l g₀ hj hphase
  · intro j l g₀ hj hcommitted
    have hold : ∃ g₁, known[j]? = some (.launch l, g₁) ∧ g₁.committed = true := by
      rcases view_cases hj with ⟨rfl, rfl, rfl⟩ | ⟨-, hj⟩
      · exact ⟨g, hi, hk.committed ▸ hcommitted⟩
      · exact ⟨g₀, hj, hcommitted⟩
    obtain ⟨g₁, hj, hcommitted⟩ := hold
    obtain ⟨e, he, hthread⟩ := h.committed j l g₁ hj hcommitted
    exact ⟨e, List.mem_cons_of_mem _ he, hthread⟩

/-- A commit that takes place keeps the invariant: the launcher saw the generation it replaces, and its own
has its token and was not current before. -/
theorem GenerationsInv.replaces {l : Launch} (h : GenerationsInv known log s)
    (hcalls : FreshLaunches (known.map Prod.fst)) (hi : known[i]? = some (.launch l, g))
    (hphase : g.phase = .prepared) (hobserved : g.observed = some s.currentId)
    (hphase' : g'.phase = .prepared) (hobserved' : g'.observed = g.observed)
    (hcurrent : s'.currentId = some l.launchId) (hauth : s'.auth l.launchId = s.auth l.launchId) :
    GenerationsInv (known.set i (.launch l, g')) (⟨i, .launch l, w, s, s'⟩ :: log) s' := by
  have hunpublished := h.unpublished hcalls hi hobserved
  simp only [not_or] at hunpublished
  have hr : Replaces ⟨i, .launch l, w, s, s'⟩ := by
    intro hsame
    exact hunpublished.1 (hcurrent.symm.trans (currentId_eq_of_current hsame))
  have hids := replacedIds_cons log hr
  have hlt := (List.getElem?_eq_some_iff.mp hi).1
  have hset : ∀ (j : ℕ) l₀ g₀, known[j]? = some (.launch l₀, g₀) →
      ∃ g₁, (known.set i (.launch l, g'))[j]? = some (.launch l₀, g₁) ∧ g₁.observed = g₀.observed := by
    intro j l₀ g₀ hj
    by_cases hij : i = j
    · subst hij
      obtain ⟨heq, rfl⟩ := Prod.mk.inj (Option.some.inj (hi.symm.trans hj))
      obtain rfl := GenerationCall.launch.inj heq
      exact ⟨g', List.getElem?_set_self hlt, hobserved'⟩
    · exact ⟨g₀, by rw [List.getElem?_set_ne hij]; exact hj, rfl⟩
  -- No other launcher has this id, so none of them is concerned by the new current generation.
  have hother : ∀ (j : ℕ) l₀ g₀, j ≠ i → known[j]? = some (.launch l₀, g₀) → l₀.launchId ≠ l.launchId := by
    intro j l₀ g₀ hne hj hid
    refine hne (hcalls.unique (a := .launch l₀) (b := .launch l) (k := l.launchId) ?_ ?_ (congrArg some hid) rfl)
    · simp [hj]
    · simp [hi]
  refine ⟨?_, ?_, ?_, ?_, ?_, ?_, ?_, ?_, ?_⟩
  · intro e he hre
    rcases List.mem_cons.mp he with rfl | he
    · exact ⟨l, g', List.getElem?_set_self hlt, hcurrent, hobserved'.trans hobserved⟩
    · obtain ⟨l₀, g₀, hknown, hafter, hseen⟩ := h.replaced e he hre
      obtain ⟨g₁, hknown', hsame⟩ := hset _ l₀ g₀ hknown
      exact ⟨l₀, g₁, hknown', hafter, hsame.trans hseen⟩
  · rw [hids]
    exact List.nodup_cons.mpr ⟨h.gone, h.once⟩
  · rw [hids, hcurrent, List.mem_cons, not_or]
    exact hunpublished
  · rw [hids, hcurrent]
    intro id hid
    rcases hid with rfl | hid
    · exact .inr ⟨_, List.mem_cons_self, hr, hcurrent⟩
    · rcases h.source id (List.mem_cons.mp hid) with hnone | ⟨e, he, hre, hafter⟩
      · exact .inl hnone
      · exact .inr ⟨e, List.mem_cons_of_mem _ he, hre, hafter⟩
  · rw [hids]
    intro j l₀ g₀ id hj hseen
    have hold : ∃ g₁, known[j]? = some (.launch l₀, g₁) ∧ g₁.observed = some id := by
      rcases view_cases hj with ⟨rfl, hd, rfl⟩ | ⟨-, hj⟩
      · obtain rfl := GenerationCall.launch.inj hd
        exact ⟨g, hi, hobserved' ▸ hseen⟩
      · exact ⟨g₀, hj, hseen⟩
    obtain ⟨g₁, hj, hseen⟩ := hold
    obtain ⟨hwhere, hfirst⟩ := h.seen j l₀ g₁ id hj hseen
    exact ⟨.inr (List.mem_cons.mpr hwhere), firstSeen_cons hfirst⟩
  · intro j l₀ g₀ hj hfresh
    rcases view_cases hj with ⟨rfl, hd, rfl⟩ | ⟨hne, hj⟩
    · rw [hphase'] at hfresh
      cases hfresh
    · rw [own_cons_ne hne]
      exact h.fresh j l₀ g₀ hj hfresh
  · intro j l₀ g₀ hj hready
    rcases view_cases hj with ⟨rfl, hd, rfl⟩ | ⟨hne, hj⟩
    · obtain rfl := GenerationCall.launch.inj hd
      rw [hauth]
      exact h.token j l g hi (.inr ⟨hphase, hobserved⟩)
    · rw [hcurrent] at hready
      rcases hready with hid | ⟨-, hseen⟩
      · exact absurd (Option.some.inj hid).symm (hother j l₀ g₀ hne hj)
      · exact absurd (h.seen j l₀ g₀ _ hj hseen).1 (not_or.mpr hunpublished)
  · intro j l₀ g₀ hj hremoving
    rcases view_cases hj with ⟨rfl, hd, rfl⟩ | ⟨hne, hj⟩
    · rw [hphase'] at hremoving
      cases hremoving
    · rw [hcurrent]
      exact fun hid => hother j l₀ g₀ hne hj (Option.some.inj hid).symm
  · intro j l₀ g₀ hj hcommitted
    rcases view_cases hj with ⟨rfl, -⟩ | ⟨-, hj⟩
    · exact ⟨_, List.mem_cons_self, rfl, hr⟩
    · obtain ⟨e, he, hthread⟩ := h.committed j l₀ g₀ hj hcommitted
      exact ⟨e, List.mem_cons_of_mem _ he, hthread⟩

section launcher

variable {manifestBytes : CurrentManifest → Option ℕ} {capsuleBytes : CaptureCapsule → Option ℕ} {port : ℕ}
  {l : Launch}

theorem Keeps.of_same (h : GenerationsInv known log s) (hi : known[i]? = some (.launch l, g))
    (hcurrent : s'.current = s.current) (hauth : ∀ id, s'.auth id = s.auth id)
    (hobserved : g'.observed = g.observed ∨ (g.phase = .fresh ∧ g'.observed = some s.currentId))
    (hcommitted : g'.committed = g.committed) (hfresh : g'.phase ≠ .fresh)
    (hremoving : g'.phase = .removing → s.currentId ≠ some l.launchId)
    (hprepared : g'.phase = .prepared → g.phase = .prepared ∧ g'.observed = g.observed) :
    Keeps (.launch l) g g' s s' := by
  refine ⟨hcurrent, hobserved, fun _ _ => hfresh, hcommitted, fun l' hd => ?_, fun id _ => hauth id,
    fun l' hd hready => ?_⟩
  · obtain rfl := GenerationCall.launch.inj hd
    exact hremoving
  · obtain rfl := GenerationCall.launch.inj hd
    rw [hauth]
    refine h.token i l g hi (hready.imp_right fun hready => ?_)
    obtain ⟨hphase, hsame⟩ := hprepared hready.1
    exact ⟨hphase, hsame ▸ hready.2⟩

theorem readCurrent_keeps (h : GenerationsInv known log s) (hi : known[i]? = some (.launch l, g)) :
    Keeps (.launch l) g
      (launchNext l g .readCurrent (RuntimeStore.readCurrent port (w.read.map fun _ => s.current))) s s := by
  rcases hread : RuntimeStore.readCurrent port (w.read.map fun _ => s.current) with e | current
  · refine Keeps.of_same h hi rfl (fun _ => rfl) (.inl rfl) rfl ?_ ?_ ?_ <;> simp [launchNext]
  · obtain rfl := RuntimeStore.readCurrent_stored hread
    simp only [launchNext]
    split_ifs with hfresh hown
    · refine Keeps.of_same h hi rfl (fun _ => rfl) (.inr ⟨hfresh, rfl⟩) rfl ?_ ?_ ?_ <;> simp
    · refine Keeps.of_same h hi rfl (fun _ => rfl) (.inl rfl) rfl ?_ ?_ ?_ <;> simp
    · refine Keeps.of_same h hi rfl (fun _ => rfl) (.inl rfl) rfl ?_ (fun _ => hown) ?_ <;> simp

theorem createDir_keeps (h : GenerationsInv known log s) (hi : known[i]? = some (.launch l, g))
    (hphase : g.phase = .preparing) (launchId : String) :
    Keeps (.launch l) g g s (published w.publish (s.createDir launchId) s).2 := by
  have hsame : (published w.publish (s.createDir launchId) s).2.current = s.current ∧
      ∀ id, (published w.publish (s.createDir launchId) s).2.auth id = s.auth id := by
    rcases published_cases w.publish (s.createDir launchId) s with hp | ⟨e, hp | hp⟩
    · rw [hp]
      exact ⟨rfl, s.createDir_auth launchId⟩
    · rw [hp]
      exact ⟨rfl, fun _ => rfl⟩
    · rw [hp]
      exact ⟨rfl, s.createDir_auth launchId⟩
  refine Keeps.of_same h hi hsame.1 hsame.2 (.inl rfl) rfl ?_ ?_ ?_ <;> simp [hphase]

theorem setAuth_self (made : Generation) (token : String) :
    (s.setGeneration l.launchId (some { made with auth := some token })).auth l.launchId = some token := by
  simp [PortStore.auth]

theorem setGeneration_auth_ne {launchId id : String} {made : Option Generation} (hne : id ≠ launchId) :
    (s.setGeneration launchId made).auth id = s.auth id := by
  unfold PortStore.auth
  rw [PortStore.setGeneration_ne _ _ hne]

theorem writeAuth_keeps (manifestBytes : CurrentManifest → Option ℕ) (capsuleBytes : CaptureCapsule → Option ℕ)
    (port : ℕ) (w : GenerationWorld) (h : GenerationsInv known log s) (hi : known[i]? = some (.launch l, g)) :
    ∃ r, (generationExec manifestBytes capsuleBytes port w s (.writeAuth l.launchId l.reclaimToken)).1 = some r ∧
      Keeps (.launch l) g (launchNext l g (.writeAuth l.launchId l.reclaimToken) r) s
        (generationExec manifestBytes capsuleBytes port w s (.writeAuth l.launchId l.reclaimToken)).2 := by
  have hwritten : ∀ (g' : LaunchView) (made : Generation), g'.phase = .prepared ∨ g'.phase = .idle → g'.observed = g.observed →
      g'.committed = g.committed → Keeps (.launch l) g g' s
        (s.setGeneration l.launchId (some { made with auth := some l.reclaimToken })) := by
    intro g' made hphase' hobserved hcommitted
    refine ⟨rfl, .inl hobserved, fun _ _ => ?_, hcommitted, fun _ _ hremoving => ?_, fun id hid => ?_,
      fun l' hd _ => ?_⟩
    · rcases hphase' with hp | hp <;> simp [hp]
    · rcases hphase' with hp | hp <;> simp [hp] at hremoving
    · exact setGeneration_auth_ne fun heq => hid (congrArg some heq.symm)
    · obtain rfl := GenerationCall.launch.inj hd
      exact setAuth_self made _
  have hfailed : ∀ e, Keeps (.launch l) g
      (launchNext l g (.writeAuth l.launchId l.reclaimToken) (.error e)) s s := by
    intro e
    refine Keeps.of_same h hi rfl (fun _ => rfl) (.inl rfl) rfl ?_ ?_ ?_ <;> simp [launchNext]
  simp only [generationExec]
  rcases s.generations l.launchId with _ | made
  · exact ⟨_, rfl, hfailed _⟩
  · rcases published_cases w.publish
      (s.setGeneration l.launchId (some { made with auth := some l.reclaimToken })) s with hp | ⟨e, hp | hp⟩
    · simp only [hp]
      exact ⟨_, rfl, hwritten _ made (.inl rfl) rfl rfl⟩
    · simp only [hp]
      exact ⟨_, rfl, hfailed e⟩
    · simp only [hp]
      exact ⟨_, rfl, hwritten _ made (.inr rfl) rfl rfl⟩

theorem remove_keeps (h : GenerationsInv known log s) (hi : known[i]? = some (.launch l, g))
    (hphase : g.phase = .removing) (made : Option Generation) :
    Keeps (.launch l) g { g with phase := .idle } s (s.setGeneration l.launchId made) := by
  refine ⟨rfl, .inl rfl, fun _ _ => by simp, rfl, fun _ _ => by simp, fun id hid => ?_, fun l' hd hready => ?_⟩
  · exact setGeneration_auth_ne fun heq => hid (congrArg some heq.symm)
  · obtain rfl := GenerationCall.launch.inj hd
    rcases hready with hcurrent | ⟨hprepared, -⟩
    · exact absurd hcurrent (h.removing i l g hi hphase)
    · cases hprepared

theorem GenerationsInv.launcher (h : GenerationsInv known log s) (hcalls : FreshLaunches (known.map Prod.fst))
    (hi : known[i]? = some (.launch l, g)) {o : GenerationOp} (hallowed : launchAllowed l g o) :
    GenerationsInv (known.set i (.launch l,
        (generationExec manifestBytes capsuleBytes port w s o).1.elim g (launchNext l g o)))
      (⟨i, .launch l, w, s, (generationExec manifestBytes capsuleBytes port w s o).2⟩ :: log)
      (generationExec manifestBytes capsuleBytes port w s o).2 := by
  cases o with
  | readCurrent => exact h.keeps hcalls hi (readCurrent_keeps h hi)
  | createDir launchId => exact h.keeps hcalls hi (createDir_keeps h hi hallowed.2 launchId)
  | writeAuth launchId token =>
    obtain ⟨rfl, rfl, -⟩ := hallowed
    obtain ⟨r, hr, hkeeps⟩ := writeAuth_keeps manifestBytes capsuleBytes port w h hi
    rw [hr]
    exact h.keeps hcalls hi hkeeps
  | commit prepared manifest =>
    obtain ⟨hid, hphase, hobserved⟩ := hallowed
    simp only [generationExec]
    rcases PreparedGeneration.commit_cases manifestBytes prepared manifest w s with ⟨e, hcommit⟩ | ⟨hcheck, r, s', hcommit, hcurrent, hgeneration⟩
    · simp only [hcommit]
      refine h.keeps hcalls hi (Keeps.of_same h hi rfl (fun _ => rfl) (.inl rfl) rfl ?_ ?_ ?_) <;>
        simp [launchNext, hphase]
    · simp only [hcommit]
      obtain ⟨hmanifest, hexpected, -⟩ := PreparedGeneration.commitCheck_eq_ok hcheck
      rw [← hexpected] at hobserved
      refine h.replaces hcalls hi hphase hobserved ?_ ?_ ?_ ?_
      · cases r <;> exact hphase
      · cases r <;> rfl
      · simp [PortStore.currentId, hcurrent, hmanifest, hid]
      · rw [← hid]
        simp only [PortStore.auth, hgeneration]
  | remove launchId =>
    obtain ⟨rfl, hphase⟩ := hallowed
    simp only [generationExec]
    rcases w.remove with e | ⟨⟩
    · exact h.keeps hcalls hi (remove_keeps h hi hphase _)
    · exact h.keeps hcalls hi (remove_keeps h hi hphase _)
  | capture launchId o => exact hallowed.elim

theorem GenerationsInv.captures (h : GenerationsInv known log s) (hcalls : FreshLaunches (known.map Prod.fst))
    {launchId : String} {r : CaptureRequest} (hi : known[i]? = some (.capture launchId r, g)) (id : String)
    (o : CaptureOp) :
    GenerationsInv (known.set i (.capture launchId r, g))
      (⟨i, .capture launchId r, w, s, (capturedExec capsuleBytes id w s o).2⟩ :: log)
      (capturedExec capsuleBytes id w s o).2 := by
  obtain ⟨hcurrent, hauth⟩ := capturedExec_frame capsuleBytes w s id o
  exact h.keeps hcalls hi ⟨hcurrent, .inl rfl, nofun, rfl, nofun, fun id _ => hauth id, nofun⟩

end launcher

end steps

/-! ## Runs -/

namespace Launch

variable (l : Launch)

theorem toList_launchId : l.launchId.toList = "launch-".toList ++ l.id.text := String.toList_ofList

theorem toList_reclaimToken :
    l.reclaimToken.toList = "reclaim-".toList ++ l.token.1.text ++ l.token.2.text := String.toList_ofList

theorem validateLaunchId_ok : validateLaunchId l.launchId = .ok () := by
  have hid : isHyphenatedAsciiId l.launchId 128 = true := by
    have hword : ∀ c ∈ "launch".toList, c.isAlphanum = true := List.all_eq_true.mp (by decide)
    refine isHyphenatedAsciiId_pair (a := "launch".toList) (b := l.id.text) (by decide) ?_ hword
      l.id.alphanum ?_ ?_
    · intro hnil
      have hlength := l.id.length
      rw [hnil] at hlength
      cases hlength
    · rw [l.id.length]
      decide
    · rw [l.id.length]
      decide
  have hstart : "launch-".toList.isPrefixOf l.launchId.toList = true := by
    rw [toList_launchId, List.isPrefixOf_iff_prefix]
    exact List.prefix_append _ _
  rw [validateLaunchId, hid, hstart]
  rfl

theorem trim_reclaimToken : trim l.reclaimToken.toList = l.reclaimToken.toList := by
  rw [toList_reclaimToken]
  refine trim_eq_self (fun c hc => ?_) fun c hc => not_isWhitespace_of_isAlphanum (l.token.2.alphanum c ?_)
  · obtain rfl : 'r' = c := Option.some.inj hc
    decide
  · rcases hlast : l.token.2.text.getLast? with _ | last
    · have hlength := l.token.2.length
      rw [List.getLast?_eq_none_iff.mp hlast] at hlength
      cases hlength
    · rw [List.getLast?_append, hlast] at hc
      obtain rfl : last = c := by simpa using hc
      exact List.mem_of_getLast? hlast

theorem readAuth_eq {s : PortStore} (h : s.auth l.launchId = some l.reclaimToken) :
    RuntimeStore.readAuth s l.launchId = .ok (some l.reclaimToken) := by
  have hne : l.reclaimToken.toList ≠ [] := by
    rw [toList_reclaimToken, List.append_assoc]
    exact List.cons_ne_nil _ _
  unfold RuntimeStore.readAuth
  rw [l.validateLaunchId_ok, h]
  simp only [l.trim_reclaimToken, require, if_pos hne, String.ofList_toList]
  rfl

end Launch

theorem captureProgram_wp {capsuleBytes : CaptureCapsule → Option ℕ} {port : ℕ} (launchId : String)
    (r : CaptureRequest) {g : LaunchView} :
    (captureProgram capsuleBytes port launchId r).wp (generationAllowed (.capture launchId r))
      (generationNext (.capture launchId r)) (fun _ _ => True) (fun _ _ => True) g := by
  have hquiet : Prog.wp (fun (_ : LaunchView) _ => True) (fun g _ _ => g) (fun _ _ => True) (fun _ _ => True)
    (captureBody capsuleBytes ⟨port, launchId⟩ r) g := Prog.wp_true
  unfold captureProgram
  exact Prog.wp_embed (fun _ _ _ => trivial) (fun _ _ _ => rfl) (fun _ _ _ => trivial) hquiet

/-- The generations of one port, with what every launcher knows. -/
def generationJoint (manifestBytes : CurrentManifest → Option ℕ) (capsuleBytes : CaptureCapsule → Option ℕ)
    (port : ℕ) : Joint (generationMachine manifestBytes capsuleBytes port) LaunchView where
  Calls := FreshLaunches
  Inv := GenerationsInv
  allowed := generationAllowed
  next := generationNext
  post := generationPost port
  start _ := .start
  shorter := Distinct.of_append
  begins hcalls h hown := h.begins hcalls hown
  moves {known log s i d g o} w hcalls h hi hallowed := by
    cases d with
    | launch l => exact h.launcher hcalls hi hallowed
    | capture launchId r =>
      cases o with
      | capture id o =>
        have hsame : ((generationMachine manifestBytes capsuleBytes port).exec (.capture id o) w s).1.elim g
            (generationNext (.capture launchId r) g (.capture id o)) = g := by
          cases ((generationMachine manifestBytes capsuleBytes port).exec (.capture id o) w s).1 <;> rfl
        rw [hsame]
        exact h.captures hcalls hi id o
      | _ => exact hallowed.elim
  body d := by
    cases d with
    | launch l => exact Prog.wp_bind.mpr launch_wp
    | capture launchId r =>
      exact Prog.wp_bind.mpr (Prog.wp_mono (fun _ _ _ => trivial) (captureProgram_wp launchId r))

theorem GenerationsInv.empty : GenerationsInv [] [] .empty := by
  refine ⟨by simp, List.nodup_nil, by simp [replacedIds], fun id hid => ?_, by simp, by simp, by simp, by simp, by simp⟩
  rcases hid with rfl | hid
  · exact .inl rfl
  · simp [replacedIds] at hid

/-- Launchers on one port, over whole runs. For every interleaving of the operations of launchers and capture
calls, with fresh launch ids:

* `current.json` is changed only by a launcher, which puts its own generation in the place of the one that
  its `prepare` saw;
* no two changes are by launchers that saw the same generation;
* a launcher that returns was given its token, and if a `commit` of it succeeded, then it replaced the
  generation that `prepare` told it to expect; so of the launchers with one expectation at most one commits;
* the generation that `current.json` names has its directory, and `read_auth` returns the token its launcher
  was given. -/
theorem launchers_run (manifestBytes : CurrentManifest → Option ℕ) (capsuleBytes : CaptureCapsule → Option ℕ)
    (port : ℕ) (actions : List (Action GenerationWorld GenerationCall))
    (hfresh : FreshLaunches (actions.filterMap Action.spawned)) :
    let s := (generationMachine manifestBytes capsuleBytes port).run (System.init .empty) actions
    (∀ e ∈ s.log, Replaces e → ∃ l, e.call = .launch l ∧ e.after.currentId = some l.launchId ∧
      firstSeen e.thread s.log = some e.before.currentId) ∧
    (∀ e ∈ s.log, ∀ e' ∈ s.log, Replaces e → Replaces e' →
      firstSeen e.thread s.log = firstSeen e'.thread s.log → e = e') ∧
    (∀ i l outcome, s.returned i (.launch l) (.launched (.ok outcome)) →
      outcome.prepared.reclaimToken = l.reclaimToken ∧ outcome.prepared.generation.launchId = l.launchId ∧
      firstSeen i s.log = some outcome.prepared.generation.expectedCurrentLaunchId ∧
      (.ok () ∈ outcome.commits → ∃ e ∈ s.log, e.thread = i ∧ Replaces e ∧
        e.before.currentId = outcome.prepared.generation.expectedCurrentLaunchId ∧
        e.after.currentId = some l.launchId)) ∧
    (∀ i j l l' outcome outcome', s.returned i (.launch l) (.launched (.ok outcome)) →
      s.returned j (.launch l') (.launched (.ok outcome')) → .ok () ∈ outcome.commits →
      .ok () ∈ outcome'.commits →
      outcome.prepared.generation.expectedCurrentLaunchId =
        outcome'.prepared.generation.expectedCurrentLaunchId → i = j) ∧
    (∀ launchId, s.store.currentId = some launchId → ∃ (i : ℕ) (l : Launch), (s.threads.map Prod.fst)[i]? = some (.launch l) ∧
      l.launchId = launchId ∧ (s.store.generations launchId).isSome ∧
      RuntimeStore.readAuth s.store launchId = .ok (some l.reclaimToken)) := by
  intro s
  obtain ⟨known, hgood⟩ := (generationJoint manifestBytes capsuleBytes port).sound GenerationsInv.empty hfresh
  have h : GenerationsInv known s.log s.store := hgood.inv
  have hreplaced : ∀ e ∈ s.log, Replaces e → ∃ l, e.call = .launch l ∧ e.after.currentId = some l.launchId ∧
      firstSeen e.thread s.log = some e.before.currentId := by
    intro e he hr
    obtain ⟨l, g, hknown, hafter, hobserved⟩ := h.replaced e he hr
    have hcall : (known.map Prod.fst)[e.thread]? = some e.call := by
      rw [hgood.calls]
      exact hgood.logged.calls e he
    rw [List.getElem?_map, hknown] at hcall
    exact ⟨l, (Option.some.inj hcall).symm, hafter, (h.seen _ l g _ hknown hobserved).2⟩
  have honce : ∀ e ∈ s.log, ∀ e' ∈ s.log, Replaces e → Replaces e' →
      firstSeen e.thread s.log = firstSeen e'.thread s.log → e = e' := by
    intro e he e' he' hr hr' hsame
    obtain ⟨-, -, -, hseen⟩ := hreplaced e he hr
    obtain ⟨-, -, -, hseen'⟩ := hreplaced e' he' hr'
    have hbefore := Option.some.inj (hseen.symm.trans (hsame.trans hseen'))
    exact List.inj_on_of_nodup_map h.once (List.mem_filter.mpr ⟨he, by simpa using hr⟩)
      (List.mem_filter.mpr ⟨he', by simpa using hr'⟩) hbefore
  have hreturned : ∀ i l outcome, s.returned i (.launch l) (.launched (.ok outcome)) →
      outcome.prepared.reclaimToken = l.reclaimToken ∧ outcome.prepared.generation.launchId = l.launchId ∧
      firstSeen i s.log = some outcome.prepared.generation.expectedCurrentLaunchId ∧
      (.ok () ∈ outcome.commits → ∃ e ∈ s.log, e.thread = i ∧ Replaces e ∧
        e.before.currentId = outcome.prepared.generation.expectedCurrentLaunchId ∧
        e.after.currentId = some l.launchId) := by
    intro i l outcome hi
    obtain ⟨g, hknown, hpost⟩ := hgood.rest i _ _ hi
    obtain ⟨htoken, -, hid, hobserved, hcommitted⟩ := hpost
    refine ⟨htoken, hid, (h.seen i l g _ hknown hobserved).2, fun hok => ?_⟩
    obtain ⟨e, he, rfl, hr⟩ := h.committed i l g hknown (hcommitted hok)
    obtain ⟨l', g', hknown', hafter, hobserved'⟩ := h.replaced e he hr
    obtain ⟨hl, rfl⟩ := Prod.mk.inj (Option.some.inj (hknown.symm.trans hknown'))
    obtain rfl := GenerationCall.launch.inj hl
    exact ⟨e, he, rfl, hr, Option.some.inj (hobserved'.symm.trans hobserved), hafter⟩
  refine ⟨hreplaced, honce, hreturned, ?_, ?_⟩
  · intro i j l l' outcome outcome' hi hj hok hok' hsame
    obtain ⟨-, -, hseen, hcommit⟩ := hreturned i l outcome hi
    obtain ⟨-, -, hseen', hcommit'⟩ := hreturned j l' outcome' hj
    obtain ⟨e, he, rfl, hr, -, -⟩ := hcommit hok
    obtain ⟨e', he', rfl, hr', -, -⟩ := hcommit' hok'
    rw [honce e he e' he' hr hr' (by rw [hseen, hseen', hsame])]
  · intro launchId hcurrent
    obtain ⟨e, -, -, l, g, hknown, rfl, -⟩ := h.publisher (.inl hcurrent.symm)
    have htoken := h.token _ l g hknown (.inl hcurrent)
    refine ⟨e.thread, l, ?_, rfl, ?_, l.readAuth_eq htoken⟩
    · rw [← hgood.calls, List.getElem?_map, hknown]
      rfl
    · obtain ⟨generation, hgeneration, -⟩ := Option.bind_eq_some_iff.mp htoken
      rw [hgeneration]
      rfl

/-- Surroundings in which every file operation succeeds. -/
def calmGenerations : GenerationWorld where
  lock := .ok ()
  read := .ok ()
  readAgain := .ok ()
  publish := .stored
  remove := .ok ()
  remains _ := .nothing
  bridge _ := none
  capture := calmWorld

def sampleUlid (c : Char) (h : c.isAlphanum = true) : Ulid where
  text := List.replicate 26 c
  length := List.length_replicate
  alphanum _ hx := (List.eq_of_mem_replicate hx) ▸ h

def sampleManifest (launchId : String) : CurrentManifest :=
  ⟨1, launchId, 8765, "mesen", "nes", "game.nes", ⟨40, some "boot:6"⟩⟩

def sampleLaunch (c : Char) (h : c.isAlphanum = true) (aborts : ℕ) : Launch :=
  let id := sampleUlid c h
  ⟨id, (id, id), [sampleManifest (String.ofList ("launch-".toList ++ id.text))], aborts⟩

/-- Two launchers prepare while there is no generation; the first one publishes, the second one is refused
and gives up. -/
def twoLaunchers : List (Action GenerationWorld GenerationCall) :=
  [.spawn (.launch (sampleLaunch 'a' rfl 0)), .spawn (.launch (sampleLaunch 'b' rfl 1))] ++
    [0, 1, 0, 1, 0, 1, 1, 0, 0, 1, 1, 1].map fun i => .step i calmGenerations

def launchA : Launch := sampleLaunch 'a' rfl 0

def launchB : Launch := sampleLaunch 'b' rfl 0

theorem launchers_run_two :
    let s := (generationMachine (fun _ => some 1000) (fun _ => some 1000) 8765).run (System.init .empty) twoLaunchers
    s.store.currentId = some (sampleLaunch 'a' rfl 0).launchId ∧
      ∃ (i : ℕ) (l : Launch), (s.threads.map Prod.fst)[i]? = some (.launch l) ∧ l.launchId = (sampleLaunch 'a' rfl 0).launchId ∧
        (s.store.generations (sampleLaunch 'a' rfl 0).launchId).isSome ∧
        RuntimeStore.readAuth s.store (sampleLaunch 'a' rfl 0).launchId = .ok (some l.reclaimToken) := by
  intro s
  have hcurrent : s.store.currentId = some (sampleLaunch 'a' rfl 0).launchId := by decide +kernel
  have hfresh : FreshLaunches (twoLaunchers.filterMap Action.spawned) := by
    have hne : (sampleLaunch 'b' rfl 1).launchId ≠ (sampleLaunch 'a' rfl 0).launchId := by decide
    have hcalls : twoLaunchers.filterMap Action.spawned
        = [.launch (sampleLaunch 'a' rfl 0), .launch (sampleLaunch 'b' rfl 1)] := rfl
    rw [hcalls]
    simp [FreshLaunches, Distinct, GenerationCall.launchId?, hne]
  exact ⟨hcurrent, (launchers_run _ _ 8765 twoLaunchers hfresh).2.2.2.2 _ hcurrent⟩

end Emucap.Live
