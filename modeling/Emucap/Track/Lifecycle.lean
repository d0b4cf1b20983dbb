import Emucap.Lib.Growth
import Emucap.Track.ServerSpec

/-!
# The lifecycle of runs

What holds of the ledger and the active run over every sequence of calls, with failures anywhere. Identifiers are
not repeated (`Ids`); from that and from the effect of one call, the active run is stored and running and no other
run of this server is, but for those whose closing failed (`Bound`). The lists of a run only grow (`Grown`).
-/

namespace Emucap.Track

open Emucap.Lib

/-! ## Rows after a call -/

section rows

variable {env : Env} {now : String} {w w' : World}

/-- No row of `w'` has a new key. -/
def KeysFrom (w w' : World) : Prop :=
  ∀ run' ∈ w'.ledger.runs.rows, ∃ run ∈ w.ledger.runs.rows, run.key = run'.key

theorem Quiet.keysFrom (h : Quiet w w') : KeysFrom w w' := by
  intro run hrun
  rw [h.runs] at hrun
  exact ⟨run, hrun, rfl⟩

theorem Rewrote.row {key : String × String} {C : Run → Run → Prop} (h : Rewrote env key C w w')
    (hC : ∀ run run', C run run' → run'.key = run.key) {run' : Run} (hrun' : run' ∈ w'.ledger.runs.rows) :
    run' ∈ w.ledger.runs.rows ∧ run'.key ≠ key ∨
      ∃ run new, run ∈ w.ledger.runs.rows ∧ run.key = key ∧ C run new ∧ run' = env.codec.run new := by
  obtain ⟨run, new, hfind, hchange, hwrote⟩ := h
  have hrun := Table.find_eq_some.mp hfind
  rw [hwrote.runs, Table.mem_rows_put] at hrun'
  rcases hrun' with rfl | ⟨hmem, hne⟩
  · exact .inr ⟨run, new, hrun.1, hrun.2, hchange, rfl⟩
  · refine .inl ⟨hmem, fun hkey => hne ?_⟩
    exact hkey.trans (hrun.2.symm.trans (hC run new hchange).symm)

theorem Rewrote.keysFrom {key : String × String} {C : Run → Run → Prop} (h : Rewrote env key C w w')
    (hC : ∀ run run', C run run' → run'.key = run.key) : KeysFrom w w' := by
  intro run' hrun'
  rcases h.row hC hrun' with ⟨hmem, -⟩ | ⟨run, new, hmem, -, hchange, rfl⟩
  · exact ⟨run', hmem, rfl⟩
  · exact ⟨run, hmem, (hC run new hchange).symm⟩

theorem Rewrote.find_of_ne {key key' : String × String} {C : Run → Run → Prop} (h : Rewrote env key C w w')
    (hC : ∀ run run', C run run' → run'.key = run.key) (hne : key' ≠ key) :
    w'.ledger.runs.find key' = w.ledger.runs.find key' := by
  obtain ⟨run, new, hfind, hchange, hwrote⟩ := h
  rw [hwrote.runs]
  refine Table.find_put_of_ne fun heq => hne ?_
  exact heq.trans ((hC run new hchange).trans (Table.find_eq_some.mp hfind).2)

theorem Rewrote.find_self {key : String × String} {C : Run → Run → Prop} (h : Rewrote env key C w w')
    (hC : ∀ run run', C run run' → run'.key = run.key) :
    ∃ run new, w.ledger.runs.find key = some run ∧ C run new ∧ w'.ledger.runs.find key = some (env.codec.run new) := by
  obtain ⟨run, new, hfind, hchange, hwrote⟩ := h
  have hkey : (env.codec.run new).key = key := (hC run new hchange).trans (Table.find_eq_some.mp hfind).2
  refine ⟨run, new, hfind, hchange, ?_⟩
  rw [hwrote.runs, ← hkey]
  exact Table.find_put_self _ _

theorem Closed.row {K : String × String → Prop} (h : Closed env now K w w') {run' : Run}
    (hrun' : run' ∈ w'.ledger.runs.rows) :
    run' ∈ w.ledger.runs.rows ∨ run'.status = .aborted ∧ ∃ run ∈ w.ledger.runs.rows, run.key = run'.key := by
  have hfind' : w'.ledger.runs.find run'.key = some run' := Table.find_eq_some.mpr ⟨hrun', rfl⟩
  rcases h.runs run'.key with hsame | ⟨-, run, n, hfind, hclosed⟩
  · exact .inl (Table.find_eq_some.mp (hsame ▸ hfind')).1
  · obtain rfl := Option.some.inj (hclosed.symm.trans hfind')
    have hrun := Table.find_eq_some.mp hfind
    exact .inr ⟨closed_iterate_status env now n run, run, hrun.1, hrun.2⟩

theorem Closed.keysFrom {K : String × String → Prop} (h : Closed env now K w w') : KeysFrom w w' := by
  intro run' hrun'
  rcases h.row hrun' with hmem | ⟨-, run, hmem, hkey⟩
  · exact ⟨run', hmem, rfl⟩
  · exact ⟨run, hmem, hkey⟩

end rows

/-! ## Identifiers -/

/-- Identifiers are generated once: those of `U` and of the runs this server started have one run each, and the
ones to come have none. -/
structure Ids (env : Env) (U : String → Prop) (w : World) : Prop where
  unique : ∀ run ∈ w.ledger.runs.rows, ∀ run' ∈ w.ledger.runs.rows, run.id = run'.id →
    U run.id ∨ run.id ∈ w.started → run.key = run'.key
  minted : ∀ id ∈ w.started, ∃ n < w.minted, env.gen n = id
  fresh : ∀ run ∈ w.ledger.runs.rows, ∀ n, w.minted ≤ n → run.id ≠ env.gen n

section ids

variable {env : Env} {U : String → Prop} {w w' : World}

theorem Ids.keep (h : Ids env U w) (hkeys : KeysFrom w w') (hstarted : w'.started = w.started)
    (hminted : w.minted ≤ w'.minted) : Ids env U w' := by
  have hid {run run' : Run} (hkey : run.key = run'.key) : run.id = run'.id := congrArg Prod.snd hkey
  refine ⟨?_, ?_, ?_⟩
  · intro run₁ hrun₁ run₂ hrun₂ heq hu
    obtain ⟨old₁, hold₁, hkey₁⟩ := hkeys run₁ hrun₁
    obtain ⟨old₂, hold₂, hkey₂⟩ := hkeys run₂ hrun₂
    rw [← hkey₁, ← hkey₂]
    refine h.unique old₁ hold₁ old₂ hold₂ (by rw [hid hkey₁, hid hkey₂, heq]) ?_
    rw [hid hkey₁, ← hstarted]
    exact hu
  · intro id hmem
    rw [hstarted] at hmem
    obtain ⟨n, hn, hgen⟩ := h.minted id hmem
    exact ⟨n, Nat.lt_of_lt_of_le hn hminted, hgen⟩
  · intro run hrun n hn
    obtain ⟨old, hold, hkey⟩ := hkeys run hrun
    rw [← hid hkey]
    exact h.fresh old hold n (Nat.le_trans hminted hn)

theorem Ids.created {run : Run} (hgen : Function.Injective env.gen) (h : Ids env U w) (hc : Created env run w w') :
    Ids env U w' := by
  obtain ⟨n, hn, hn', hid⟩ := hc.minted
  have hnew (old : Run) (hold : old ∈ w.ledger.runs.rows) : old.id ≠ run.id := by
    rw [hid]
    exact h.fresh old hold n hn
  have hrows (run' : Run) : run' ∈ w'.ledger.runs.rows → run' = run ∨ run' ∈ w.ledger.runs.rows := by
    rw [hc.runs, Table.mem_rows_put]
    exact fun h => h.imp_right And.left
  refine ⟨?_, ?_, ?_⟩
  · intro run₁ hrun₁ run₂ hrun₂ heq hu
    rcases hrows run₁ hrun₁ with rfl | hold₁ <;> rcases hrows run₂ hrun₂ with rfl | hold₂
    · rfl
    · exact absurd heq.symm (hnew run₂ hold₂)
    · exact absurd heq (hnew run₁ hold₁)
    · refine h.unique run₁ hold₁ run₂ hold₂ heq (hu.imp_right fun hmem => ?_)
      rw [hc.started] at hmem
      exact (List.mem_cons.mp hmem).resolve_left (hnew run₁ hold₁)
  · intro id hmem
    rw [hc.started] at hmem
    rcases List.mem_cons.mp hmem with rfl | hmem
    · exact ⟨n, hn', hid.symm⟩
    · obtain ⟨m, hm, hgen'⟩ := h.minted id hmem
      exact ⟨m, by omega, hgen'⟩
  · intro run' hrun' m hm
    rcases hrows run' hrun' with rfl | hold
    · rw [hid]
      intro heq
      have := hgen heq
      omega
    · exact h.fresh run' hold m (by omega)

end ids

/-! ## The active run -/

/-- The active run is stored and running, and it is the only running run that this server started, but for those
that it could not close. -/
structure Bound (w : World) : Prop where
  active : ∀ a, w.active = some a → ∃ run, w.ledger.runs.find a.key = some run ∧ run.status = .running
  single : ∀ run ∈ w.ledger.runs.rows, run.status = .running → run.id ∈ w.started → run.id ∉ w.abandoned →
    w.active.map ActiveRun.key = some run.key

section effect

variable {env : Env} {now : String} {call : Call} {w w' : World} {failed : Bool}

theorem Appends.same {run run' : Run} (h : Appends call run run') : run'.key = run.key ∧ run'.status = run.status := by
  cases call with
  | logMetric key value =>
    obtain ⟨m, rfl⟩ := h
    exact ⟨rfl, rfl⟩
  | logGate name kind passed evidenceRef detail caseRef =>
    obtain ⟨g, rfl⟩ := h
    exact ⟨rfl, rfl⟩
  | logArtifact kind absent evidence =>
    obtain ⟨a, rfl⟩ := h
    exact ⟨rfl, rfl⟩
  | logIntervention op args atFrame atEvent frozenContext =>
    obtain ⟨i, -, rfl⟩ := h
    exact ⟨rfl, rfl⟩
  | runStart romSha1 connectionRef goal description tags => exact h.elim
  | runResume runId => exact h.elim
  | runFinish status runId => exact h.elim
  | setReproduction base movieRef => exact h.elim
  | logFinding romSha1 claim evidenceRefs promoted => exact h.elim

theorem GaveWay.ids {U : String → Prop} (h : GaveWay env now call w w') (hids : Ids env U w) : Ids env U w' :=
  hids.keep (fun run' hrun' => h.closed.keysFrom run' hrun') h.closed.started h.closed.minted

theorem Effect.keysFrom_or_created (h : Effect env now call w failed w') :
    KeysFrom w w' ∧ w'.started = w.started ∧ w.minted ≤ w'.minted ∨
      ∃ w₁ w₂ romSha1 connectionRef run, GaveWay env now call w w₁ ∧ Fresh romSha1 connectionRef run ∧
        Created env run w₁ w₂ ∧ w' = { w₂ with active := some run.binding } := by
  cases h with
  | refused quiet => exact .inl ⟨quiet.keysFrom, quiet.started, quiet.minted⟩
  | appended active rewrote =>
    have hkeys := rewrote.keysFrom fun _ _ h => h.same.1
    obtain ⟨_, _, _, _, hwrote⟩ := rewrote
    exact .inl ⟨hkeys, hwrote.started, hwrote.minted⟩
  | reproduced tool active rewrote =>
    have hkeys := rewrote.keysFrom (by rintro _ _ ⟨_, _, rfl⟩; rfl)
    obtain ⟨_, _, _, _, hwrote⟩ := rewrote
    exact .inl ⟨hkeys, hwrote.started, hwrote.minted⟩
  | found tool rom rest findings =>
    obtain ⟨hruns, -, hstarted, -, hminted⟩ := rest
    exact .inl ⟨fun run hrun => ⟨run, hruns ▸ hrun, rfl⟩, hstarted, hminted⟩
  | finished tool target closes rewrote active =>
    subst active
    have hkeys := rewrote.keysFrom (by rintro _ _ rfl; rfl)
    obtain ⟨_, _, _, _, hwrote⟩ := rewrote
    exact .inl ⟨hkeys, hwrote.started, hwrote.minted⟩
  | rebound stored running tool closed retired bound =>
    subst bound
    exact .inl ⟨closed.keysFrom, closed.started, closed.minted⟩
  | started tool gaveWay fresh created bound => exact .inr ⟨_, _, _, _, _, gaveWay, fresh, created, bound⟩
  | notStarted tool gaveWay quiet =>
    refine .inl ⟨fun run hrun => ?_, quiet.started.trans gaveWay.closed.started,
      Nat.le_trans gaveWay.closed.minted quiet.minted⟩
    exact gaveWay.closed.keysFrom run (quiet.runs ▸ hrun)

theorem Effect.ids {U : String → Prop} (hgen : Function.Injective env.gen) (h : Effect env now call w failed w')
    (hids : Ids env U w) : Ids env U w' := by
  rcases h.keysFrom_or_created with ⟨hkeys, hstarted, hminted⟩ | ⟨w₁, w₂, _, _, run, hway, -, hcreated, rfl⟩
  · exact hids.keep hkeys hstarted hminted
  · have h₂ := (hway.ids hids).created hgen hcreated
    exact ⟨h₂.unique, h₂.minted, h₂.fresh⟩

theorem Rewrote.bound {a : ActiveRun} {C : Run → Run → Prop} (hactive : w.active = some a)
    (h : Rewrote env a.key C w w') (hC : ∀ run run', C run run' → run'.key = run.key ∧ run'.status = run.status)
    (hbound : Bound w) : Bound w' := by
  have hkey := fun run run' h => (hC run run' h).1
  have hactive' : w'.active = some a := by
    obtain ⟨_, _, _, _, hwrote⟩ := h
    rw [hwrote.active, hactive]
  refine ⟨fun a' ha' => ?_, fun run' hrun' hrunning hstarted habandoned => ?_⟩
  · obtain rfl : a = a' := Option.some.inj (hactive'.symm.trans ha')
    obtain ⟨run, hfind, hrunning⟩ := hbound.active a hactive
    obtain ⟨run₁, new, hfind₁, hchange, hfind'⟩ := h.find_self hkey
    obtain rfl : run = run₁ := Option.some.inj (hfind.symm.trans hfind₁)
    exact ⟨_, hfind', (hC run new hchange).2.trans hrunning⟩
  · rcases h.row hkey hrun' with ⟨hmem, -⟩ | ⟨run, new, hmem, hrunKey, hchange, rfl⟩
    · obtain ⟨_, _, _, _, hwrote⟩ := h
      rw [hwrote.active]
      exact hbound.single run' hmem hrunning (hwrote.started ▸ hstarted) (hwrote.abandoned ▸ habandoned)
    · rw [hactive']
      show some a.key = some new.key
      rw [hkey run new hchange, hrunKey]

theorem not_running_of_retired {prev : ActiveRun} {run : Run} (hretired : Retired prev w)
    (hrun : run ∈ w.ledger.runs.rows) (hkey : prev.key = run.key) (hrunning : run.status = .running)
    (habandoned : run.id ∉ w.abandoned) : False := by
  rcases hretired with hid | ⟨run₁, hfind, haborted⟩
  · have hsame : prev.runId = run.id := congrArg Prod.snd hkey
    exact habandoned (hsame ▸ hid)
  · have hfind' : w.ledger.runs.find prev.key = some run := Table.find_eq_some.mpr ⟨hrun, hkey.symm⟩
    obtain rfl := Option.some.inj (hfind.symm.trans hfind')
    rw [hrunning] at haborted
    cases haborted

theorem GaveWay.none_running (h : GaveWay env now call w w') (hbound : Bound w) {run : Run}
    (hrun : run ∈ w'.ledger.runs.rows) (hrunning : run.status = .running) (hstarted : run.id ∈ w'.started)
    (habandoned : run.id ∉ w'.abandoned) : False := by
  rcases h.closed.row hrun with hmem | ⟨haborted, -⟩
  · have hold : run.id ∉ w.abandoned := fun hid => habandoned (h.closed.abandoned _ hid)
    have hkey := hbound.single run hmem hrunning (h.closed.started ▸ hstarted) hold
    obtain ⟨prev, hprev, hprevKey⟩ := Option.map_eq_some_iff.mp hkey
    exact not_running_of_retired (h.retired prev hprev) hrun hprevKey hrunning habandoned
  · rw [hrunning] at haborted
    cases haborted

theorem Effect.bound {U : String → Prop} (h : Effect env now call w failed w') (hids : Ids env U w)
    (hbound : Bound w) : Bound w' := by
  cases h with
  | refused quiet =>
    refine ⟨fun a ha => ?_, fun run hrun hrunning hstarted habandoned => ?_⟩
    · rw [quiet.runs]
      exact hbound.active a (quiet.active ▸ ha)
    · rw [quiet.active]
      exact hbound.single run (quiet.runs ▸ hrun) hrunning (quiet.started ▸ hstarted) (quiet.abandoned ▸ habandoned)
  | appended active rewrote => exact rewrote.bound active (fun _ _ h => h.same) hbound
  | reproduced tool active rewrote =>
    refine rewrote.bound active ?_ hbound
    rintro _ _ ⟨_, _, rfl⟩
    exact ⟨rfl, rfl⟩
  | found tool rom rest findings =>
    obtain ⟨hruns, hactive, hstarted', habandoned', -⟩ := rest
    refine ⟨fun a ha => ?_, fun run hrun hrunning hstarted habandoned => ?_⟩
    · rw [hruns]
      exact hbound.active a (hactive ▸ ha)
    · rw [hactive]
      exact hbound.single run (hruns ▸ hrun) hrunning (hstarted' ▸ hstarted) (habandoned' ▸ habandoned)
  | @finished w₁ _ key _ _ status' tool target closes rewrote active =>
    subst active
    have hkeys : ∀ run run' : Run, run' = { run with status := status', endedAt := some now } → run'.key = run.key := by
      rintro _ _ rfl
      rfl
    have hsame := fun key' (h : key' ≠ key) => rewrote.find_of_ne hkeys h
    have hrows := fun run' (h : run' ∈ w₁.ledger.runs.rows) => rewrote.row hkeys h
    obtain ⟨_, _, _, _, hwrote⟩ := rewrote
    refine ⟨fun a ha => ?_, fun run' hrun' hrunning hstarted habandoned => ?_⟩
    · obtain ⟨ha', hne⟩ := Option.filter_eq_some_iff.mp ha
      have hkey : a.key ≠ key := by
        rintro rfl
        simp [ActiveRun.key] at hne
      show ∃ run, w₁.ledger.runs.find a.key = some run ∧ _
      rw [hsame a.key hkey]
      exact hbound.active a (hwrote.active ▸ ha')
    · rcases hrows run' hrun' with ⟨hmem, hne⟩ | ⟨run, new, -, -, rfl, rfl⟩
      · have hkey := hbound.single run' hmem hrunning (hwrote.started ▸ hstarted) (hwrote.abandoned ▸ habandoned)
        obtain ⟨a, ha, hakey⟩ := Option.map_eq_some_iff.mp hkey
        have hid : a.runId = run'.id := congrArg Prod.snd hakey
        have hother : a.runId ≠ key.2 := by
          intro heq
          rcases target with hactive | honly
          · rw [ha] at hactive
            exact hne (hakey.symm.trans (Option.some.inj hactive))
          · exact hne (honly run' hmem (hid.symm.trans heq))
        show (w₁.active.filter _).map _ = _
        rw [hwrote.active, ha, Option.filter_some, if_pos (by simpa using hother), Option.map_some, hakey]
      · exact absurd hrunning closes
  | @rebound w₁ _ run stored running tool closed retired bound =>
    subst bound
    have hfind : w.ledger.runs.find run.key = some run := Table.find_eq_some.mpr ⟨stored, rfl⟩
    refine ⟨?_, fun run' hrun' hrunning hstarted habandoned => ?_⟩
    · rintro _ ⟨⟩
      rcases closed.runs run.key with hsame | ⟨⟨-, hne⟩, -⟩
      · exact ⟨run, hsame.trans hfind, running⟩
      · exact absurd rfl hne
    · show some run.key = some run'.key
      rcases closed.row hrun' with hmem | ⟨haborted, -⟩
      · by_cases hid : run'.id = run.id
        · have hkey := hids.unique run' hmem run stored hid (.inr (closed.started ▸ hstarted))
          rw [hkey]
        · have hnew : run'.id ∉ w₁.abandoned := by
            intro hin
            exact habandoned (List.mem_filter.mpr ⟨hin, by simpa using hid⟩)
          have hkey := hbound.single run' hmem hrunning (closed.started ▸ hstarted)
            (fun hin => hnew (closed.abandoned _ hin))
          obtain ⟨prev, hprev, hprevKey⟩ := Option.map_eq_some_iff.mp hkey
          have hprevId : prev.runId = run'.id := congrArg Prod.snd hprevKey
          exact (not_running_of_retired (retired prev hprev (hprevId ▸ hid)) hrun' hprevKey hrunning hnew).elim
      · rw [hrunning] at haborted
        cases haborted
  | @started w₁ w₂ _ run _ _ _ _ _ tool gaveWay fresh created bound =>
    subst bound
    refine ⟨?_, fun run' hrun' hrunning hstarted habandoned => ?_⟩
    · rintro _ ⟨⟩
      refine ⟨run, ?_, fresh.status⟩
      show w₂.ledger.runs.find run.key = some run
      rw [created.runs]
      exact Table.find_put_self _ _
    · show some run.key = some run'.key
      rw [created.runs, Table.mem_rows_put] at hrun'
      rcases hrun' with rfl | ⟨hmem, hne⟩
      · rfl
      · obtain ⟨n, hn, -, hid⟩ := created.minted
        have hother : run'.id ≠ run.id := by
          rw [hid]
          exact (gaveWay.ids hids).fresh run' hmem n hn
        have hold : run'.id ∈ w₁.started := (List.mem_cons.mp (created.started ▸ hstarted)).resolve_left hother
        exact (gaveWay.none_running hbound hmem hrunning hold (created.abandoned ▸ habandoned)).elim
  | @notStarted w₁ _ _ _ _ _ _ tool gaveWay quiet =>
    refine ⟨fun a ha => ?_, fun run hrun hrunning hstarted habandoned => ?_⟩
    · rw [quiet.active, gaveWay.closed.active] at ha
      cases ha
    · exact (gaveWay.none_running hbound (quiet.runs ▸ hrun) hrunning (quiet.started ▸ hstarted)
        (quiet.abandoned ▸ habandoned)).elim

end effect

/-! ## The lists of a run -/

def Numbered (run : Run) : Prop := ∀ (k : ℕ) (i : Intervention), run.interventions[k]? = some i → i.seq = k

/-- The entries of a run, as reading them back gives them. -/
structure SameLists (codec : Codec) (run run' : Run) : Prop where
  gates : run'.gates = run.gates
  metrics : Reread codec.metric run.metrics run'.metrics
  artifacts : Reread codec.artifact run.artifacts run'.artifacts
  interventions : Reread codec.intervention run.interventions run'.interventions

/-- What becomes of a run: its entries stay, new ones come after them, and none come once it is finished. -/
structure Grown (codec : Codec) (run run' : Run) : Prop where
  key : run'.key = run.key
  gates : run.gates <+: run'.gates
  metrics : Extends codec.metric run.metrics run'.metrics
  artifacts : Extends codec.artifact run.artifacts run'.artifacts
  interventions : Extends codec.intervention run.interventions run'.interventions
  numbered : Numbered run → Numbered run'
  finished : run.status ≠ .running → run'.status ≠ .running ∧ SameLists codec run run'

section grown

variable {codec : Codec} {run run' run'' : Run}

theorem SameLists.refl (codec : Codec) (run : Run) : SameLists codec run run :=
  ⟨rfl, .refl _ _, .refl _ _, .refl _ _⟩

theorem SameLists.trans (h : SameLists codec run run') (h' : SameLists codec run' run'') : SameLists codec run run'' :=
  ⟨h'.gates.trans h.gates, h.metrics.trans h'.metrics, h.artifacts.trans h'.artifacts,
    h.interventions.trans h'.interventions⟩

theorem iterate_intervention_seq (codec : Codec) (n : ℕ) (i : Intervention) :
    (codec.intervention^[n] i).seq = i.seq := by
  induction n with
  | zero => rfl
  | succ n ih =>
    rw [Function.iterate_succ_apply']
    exact ih

theorem SameLists.numbered (h : SameLists codec run run') (hnumbered : Numbered run) : Numbered run' := by
  intro k i hget
  obtain ⟨n, hlist⟩ := h.interventions
  rw [hlist, List.getElem?_map] at hget
  obtain ⟨i₀, hget₀, rfl⟩ := Option.map_eq_some_iff.mp hget
  rw [iterate_intervention_seq]
  exact hnumbered k i₀ hget₀

theorem SameLists.grown (h : SameLists codec run run') (hkey : run'.key = run.key)
    (hstatus : run.status ≠ .running → run'.status ≠ .running) : Grown codec run run' :=
  ⟨hkey, h.gates ▸ List.prefix_refl _, h.metrics.extends, h.artifacts.extends, h.interventions.extends, h.numbered,
    fun hdone => ⟨hstatus hdone, h⟩⟩

theorem Grown.refl (codec : Codec) (run : Run) : Grown codec run run :=
  (SameLists.refl codec run).grown rfl id

theorem Grown.trans (h : Grown codec run run') (h' : Grown codec run' run'') : Grown codec run run'' := by
  refine ⟨h'.key.trans h.key, h.gates.trans h'.gates, h.metrics.trans h'.metrics, h.artifacts.trans h'.artifacts,
    h.interventions.trans h'.interventions, fun hnumbered => h'.numbered (h.numbered hnumbered), fun hdone => ?_⟩
  obtain ⟨hdone', hsame⟩ := h.finished hdone
  obtain ⟨hdone'', hsame'⟩ := h'.finished hdone'
  exact ⟨hdone'', hsame.trans hsame'⟩

theorem sameLists_reread (hgates : run'.gates = run.gates) (hmetrics : run'.metrics = run.metrics)
    (hartifacts : run'.artifacts = run.artifacts) (hinterventions : run'.interventions = run.interventions) :
    SameLists codec run (codec.run run') := by
  refine ⟨hgates, ?_, ?_, ?_⟩
  · rw [← hmetrics]
    exact .once _ _
  · rw [← hartifacts]
    exact .once _ _
  · rw [← hinterventions]
    exact .once _ _

theorem closed_grown (env : Env) (now : String) (n : ℕ) (run : Run) :
    Grown env.codec run ((closed env now)^[n] run) := by
  induction n with
  | zero => exact .refl _ _
  | succ n ih =>
    have hsame : SameLists env.codec ((closed env now)^[n] run) (closed env now ((closed env now)^[n] run)) :=
      sameLists_reread rfl rfl rfl rfl
    rw [Function.iterate_succ_apply']
    exact ih.trans (hsame.grown rfl fun _ => nofun)

theorem numbered_append {i : Intervention} (h : Numbered run) (hseq : i.seq = run.interventions.length) (k : ℕ)
    (j : Intervention) (hget : (run.interventions ++ [i])[k]? = some j) : j.seq = k := by
  rw [List.getElem?_append] at hget
  split_ifs at hget with hlt
  · exact h k j hget
  · rw [List.getElem?_singleton] at hget
    split_ifs at hget with hzero
    obtain rfl := Option.some.inj hget
    omega

theorem Appends.grown {call : Call} (h : Appends call run run') (hrunning : run.status = .running) :
    Grown codec run (codec.run run') := by
  have hreread {α : Type} (f : α → α) (xs : List α) : Extends f xs (xs.map f) := (Reread.once f xs).extends
  have hkept (h : Numbered run) : ∀ (k : ℕ) (i : Intervention),
      (run.interventions.map codec.intervention)[k]? = some i → i.seq = k :=
    fun k i hget => (SameLists.numbered (sameLists_reread rfl rfl rfl rfl : SameLists codec run (codec.run run)) h) k i hget
  cases call with
  | logMetric key value =>
    obtain ⟨m, rfl⟩ := h
    exact ⟨rfl, List.prefix_refl _, .append _ _ _, hreread _ _, hreread _ _, hkept, fun h => absurd hrunning h⟩
  | logGate name kind passed evidenceRef detail caseRef =>
    obtain ⟨g, rfl⟩ := h
    exact ⟨rfl, List.prefix_append _ _, hreread _ _, hreread _ _, hreread _ _, hkept, fun h => absurd hrunning h⟩
  | logArtifact kind absent evidence =>
    obtain ⟨a, rfl⟩ := h
    exact ⟨rfl, List.prefix_refl _, hreread _ _, .append _ _ _, hreread _ _, hkept, fun h => absurd hrunning h⟩
  | logIntervention op args atFrame atEvent frozenContext =>
    obtain ⟨i, hseq, rfl⟩ := h
    refine ⟨rfl, List.prefix_refl _, hreread _ _, hreread _ _, .append _ _ _, fun hnumbered k j hget => ?_,
      fun h => absurd hrunning h⟩
    obtain ⟨j₀, hget₀, rfl⟩ := Option.map_eq_some_iff.mp ((List.getElem?_map ..).symm.trans hget)
    exact numbered_append hnumbered hseq k j₀ hget₀
  | runStart romSha1 connectionRef goal description tags => exact h.elim
  | runResume runId => exact h.elim
  | runFinish status runId => exact h.elim
  | setReproduction base movieRef => exact h.elim
  | logFinding romSha1 claim evidenceRefs promoted => exact h.elim

end grown

section runs

variable {env : Env} {now : String} {call : Call} {w w' w'' : World} {failed : Bool}

/-- No run is lost, and what each has of entries stays. -/
def AllGrown (codec : Codec) (w w' : World) : Prop :=
  ∀ key run, w.ledger.runs.find key = some run → ∃ run', w'.ledger.runs.find key = some run' ∧ Grown codec run run'

theorem AllGrown.of_eq {codec : Codec} (h : w'.ledger.runs = w.ledger.runs) : AllGrown codec w w' := by
  intro key run hfind
  exact ⟨run, h ▸ hfind, .refl _ _⟩

theorem AllGrown.trans {codec : Codec} (h : AllGrown codec w w') (h' : AllGrown codec w' w'') : AllGrown codec w w'' := by
  intro key run hfind
  obtain ⟨run', hfind', hgrown⟩ := h key run hfind
  obtain ⟨run'', hfind'', hgrown'⟩ := h' key run' hfind'
  exact ⟨run'', hfind'', hgrown.trans hgrown'⟩

theorem Rewrote.allGrown {key : String × String} {C : Run → Run → Prop} (h : Rewrote env key C w w')
    (hC : ∀ run run', w.ledger.runs.find key = some run → C run run' → Grown env.codec run (env.codec.run run'))
    (hkey : ∀ run run', C run run' → run'.key = run.key) : AllGrown env.codec w w' := by
  intro key' run hfind
  by_cases hne : key' = key
  · subst hne
    obtain ⟨run₁, new, hfind₁, hchange, hfind'⟩ := h.find_self hkey
    obtain rfl : run = run₁ := Option.some.inj (hfind.symm.trans hfind₁)
    exact ⟨_, hfind', hC run new hfind hchange⟩
  · exact ⟨run, (h.find_of_ne hkey hne).trans hfind, .refl _ _⟩

theorem Closed.allGrown {K : String × String → Prop} (h : Closed env now K w w') : AllGrown env.codec w w' := by
  intro key run hfind
  rcases h.runs key with hsame | ⟨-, run₁, n, hfind₁, hclosed⟩
  · exact ⟨run, hsame.trans hfind, .refl _ _⟩
  · obtain rfl : run = run₁ := Option.some.inj (hfind.symm.trans hfind₁)
    exact ⟨_, hclosed, closed_grown env now (n + 1) run⟩

theorem Created.allGrown {run : Run} {U : String → Prop} (h : Created env run w w') (hids : Ids env U w) :
    AllGrown env.codec w w' := by
  intro key old hfind
  refine ⟨old, ?_, .refl _ _⟩
  obtain ⟨n, hn, -, hid⟩ := h.minted
  have hold := Table.find_eq_some.mp hfind
  rw [h.runs]
  refine (Table.find_put_of_ne fun heq => ?_).trans hfind
  have hsame : old.id = run.id := congrArg Prod.snd (hold.2.trans heq)
  exact hids.fresh old hold.1 n hn (hsame.trans hid)

theorem Effect.allGrown {U : String → Prop} (h : Effect env now call w failed w') (hids : Ids env U w)
    (hbound : Bound w) : AllGrown env.codec w w' := by
  cases h with
  | refused quiet => exact .of_eq quiet.runs
  | @appended _ a active rewrote =>
    refine rewrote.allGrown (fun run run' hfind happends => happends.grown ?_) (fun _ _ h => h.same.1)
    obtain ⟨run₁, hfind₁, hrunning⟩ := hbound.active a active
    exact Option.some.inj (hfind.symm.trans hfind₁) ▸ hrunning
  | reproduced tool active rewrote =>
    refine rewrote.allGrown ?_ (by rintro _ _ ⟨_, _, rfl⟩; rfl)
    rintro run _ hfind ⟨_, _, rfl⟩
    apply SameLists.grown
    · exact sameLists_reread rfl rfl rfl rfl
    · rfl
    · exact id
  | found tool rom rest findings => exact .of_eq rest.1
  | finished tool target closes rewrote active =>
    subst active
    refine rewrote.allGrown ?_ (by rintro _ _ rfl; rfl)
    rintro run _ hfind rfl
    apply SameLists.grown
    · exact sameLists_reread rfl rfl rfl rfl
    · rfl
    · exact fun _ => closes
  | rebound stored running tool closed retired bound =>
    subst bound
    exact closed.allGrown
  | started tool gaveWay fresh created bound =>
    subst bound
    exact gaveWay.closed.allGrown.trans (created.allGrown (gaveWay.ids hids))
  | notStarted tool gaveWay quiet => exact gaveWay.closed.allGrown.trans (.of_eq quiet.runs)

end runs

/-! ## Every sequence of calls -/

def Call.isLog : Call → Bool
  | .logMetric _ _ | .logGate _ _ _ _ _ _ | .logArtifact _ _ _ | .logIntervention _ _ _ _ _ | .logFinding _ _ _ _ => true
  | _ => false

/-- A recorded call appends one entry to one list of the active run and changes no other run; a finding changes none. -/
def LogAppends (env : Env) (call : Call) (w w' : World) : Prop :=
  (∃ a run run', w.active = some a ∧ w.ledger.runs.find a.key = some run ∧ Appends call run run' ∧
      w'.ledger.runs = w.ledger.runs.put (env.codec.run run')) ∨
    (∃ romSha1 claim evidenceRefs promoted, call = .logFinding romSha1 claim evidenceRefs promoted) ∧
      w'.ledger.runs = w.ledger.runs

/-- What holds in a state of the server and of the calls it can get there. -/
structure Lifecycle (env : Env) (w : World) : Prop where
  activeRunning : ∀ a, w.active = some a → ∃ run, w.ledger.runs.find a.key = some run ∧ run.status = .running
  oneRunning : ∀ run ∈ w.ledger.runs.rows, ∀ run' ∈ w.ledger.runs.rows, run.id ∈ w.started → run'.id ∈ w.started →
    run.status = .running → run'.status = .running → run.connectionRef = run'.connectionRef →
    run.id ∉ w.abandoned → run'.id ∉ w.abandoned → run = run'
  numbered : ∀ run ∈ w.ledger.runs.rows, run.id ∈ w.started → Numbered run
  logs : ∀ now call reply w', call.isLog = true → serve env now call w = .ok reply w' → LogAppends env call w w'
  grows : ∀ later, AllGrown env.codec w (serveAll env later w)
  refusals : ∀ now call e w', serve env now call w = .error e w' → ∀ key,
    w'.ledger.runs.find key = w.ledger.runs.find key ∨
      Superseded call w key ∧ ∃ run n, w.ledger.runs.find key = some run ∧
        w'.ledger.runs.find key = some ((closed env now)^[n + 1] run)

/-- A server begins without an active run, and its identifiers are new. -/
structure Begins (env : Env) (w : World) : Prop where
  active : w.active = none
  started : w.started = []
  fresh : ∀ run ∈ w.ledger.runs.rows, ∀ n, w.minted ≤ n → run.id ≠ env.gen n

section lifecycle

variable {env : Env} {w w' : World}

theorem Begins.ids (h : Begins env w) : Ids env (fun _ => False) w := by
  refine ⟨fun run hrun run' hrun' hid hu => ?_, fun id hid => ?_, h.fresh⟩
  · rw [h.started] at hu
    simp at hu
  · rw [h.started] at hid
    cases hid

theorem Begins.bound (h : Begins env w) : Bound w := by
  refine ⟨fun a ha => ?_, fun run hrun hrunning hstarted => ?_⟩
  · rw [h.active] at ha
    cases ha
  · rw [h.started] at hstarted
    cases hstarted

theorem exists_effect (env : Env) (now : String) (call : Call) (w : World) :
    ∃ failed, Effect env now call w failed (after (serve env now call) w) := by
  have h : wp (serve env now call) (fun _ w' => ∃ failed, Effect env now call w failed w')
      (fun _ w' => ∃ failed, Effect env now call w failed w') w :=
    wp_mono (wp_serve call) (fun _ _ h => ⟨false, h⟩) (fun _ _ h => ⟨true, h⟩)
  exact after_of_wp h

/-- The runs this server started have their interventions numbered. -/
def StartedNumbered (w : World) : Prop := ∀ run ∈ w.ledger.runs.rows, run.id ∈ w.started → Numbered run

theorem AllGrown.numbered {codec : Codec} (h : AllGrown codec w w') (hkeys : KeysFrom w w')
    (hstarted : w'.started = w.started) (hnumbered : StartedNumbered w) : StartedNumbered w' := by
  intro run' hrun' hid
  obtain ⟨run, hrun, hkey⟩ := hkeys run' hrun'
  obtain ⟨run₁, hfind, hgrown⟩ := h run.key run (Table.find_eq_some.mpr ⟨hrun, rfl⟩)
  have hfind' : w'.ledger.runs.find run.key = some run' := Table.find_eq_some.mpr ⟨hrun', hkey.symm⟩
  obtain rfl : run₁ = run' := Option.some.inj (hfind.symm.trans hfind')
  have hsame : run.id = run₁.id := congrArg Prod.snd hkey
  exact hgrown.numbered (hnumbered run hrun (by rw [hsame, ← hstarted]; exact hid))

theorem Effect.numbered {now : String} {call : Call} {failed : Bool} {U : String → Prop}
    (h : Effect env now call w failed w') (hids : Ids env U w) (hbound : Bound w) (hnumbered : StartedNumbered w) :
    StartedNumbered w' := by
  rcases h.keysFrom_or_created with ⟨hkeys, hstarted, -⟩ | ⟨w₁, w₂, _, _, run, hway, hfresh, hcreated, rfl⟩
  · exact (h.allGrown hids hbound).numbered hkeys hstarted hnumbered
  · intro run' hrun' hid
    rw [hcreated.runs, Table.mem_rows_put] at hrun'
    rcases hrun' with rfl | ⟨hmem, -⟩
    · intro k i hget
      rw [hfresh.interventions] at hget
      cases hget
    · have hnumbered₁ : StartedNumbered w₁ :=
        hway.closed.allGrown.numbered hway.closed.keysFrom hway.closed.started hnumbered
      obtain ⟨n, hn, -, hnew⟩ := hcreated.minted
      have hother : run'.id ≠ run.id := hnew ▸ (hway.ids hids).fresh run' hmem n hn
      exact hnumbered₁ run' hmem ((List.mem_cons.mp (hcreated.started ▸ hid)).resolve_left hother)

structure Steady (env : Env) (w : World) : Prop where
  ids : Ids env (fun _ => False) w
  bound : Bound w
  numbered : StartedNumbered w

theorem Steady.serve (hgen : Function.Injective env.gen) (h : Steady env w) (now : String) (call : Call) :
    Steady env (after (serve env now call) w) ∧ AllGrown env.codec w (after (serve env now call) w) := by
  obtain ⟨failed, heffect⟩ := exists_effect env now call w
  exact ⟨⟨heffect.ids hgen h.ids, heffect.bound h.ids h.bound, heffect.numbered h.ids h.bound h.numbered⟩,
    heffect.allGrown h.ids h.bound⟩

theorem Steady.serveAll (hgen : Function.Injective env.gen) (h : Steady env w) (calls : List (String × Call)) :
    Steady env (serveAll env calls w) ∧ AllGrown env.codec w (serveAll env calls w) := by
  induction calls generalizing w with
  | nil => exact ⟨h, .of_eq rfl⟩
  | cons c calls ih =>
    obtain ⟨hfirst, hgrown⟩ := h.serve hgen c.1 c.2
    obtain ⟨hlast, hgrown'⟩ := ih hfirst
    exact ⟨hlast, hgrown.trans hgrown'⟩

theorem Begins.steady (h : Begins env w) : Steady env w := by
  refine ⟨h.ids, h.bound, fun run hrun hid => ?_⟩
  rw [h.started] at hid
  cases hid

theorem Steady.lifecycle (hgen : Function.Injective env.gen) (h : Steady env w) : Lifecycle env w := by
  refine ⟨h.bound.active, ?_, h.numbered, ?_, fun later => (h.serveAll hgen later).2, ?_⟩
  · intro run hrun run' hrun' hstarted hstarted' hrunning hrunning' _ hkept hkept'
    have hkey := h.bound.single run hrun hrunning hstarted hkept
    have hkey' := h.bound.single run' hrun' hrunning' hstarted' hkept'
    have hsame : run.key = run'.key := Option.some.inj (hkey.symm.trans hkey')
    have hfind : w.ledger.runs.find run.key = some run := Table.find_eq_some.mpr ⟨hrun, rfl⟩
    exact Option.some.inj (hfind.symm.trans (Table.find_eq_some.mpr ⟨hrun', hsame.symm⟩))
  · intro now call reply w' hlog hserve
    cases wp_ok (wp_serve call) hserve with
    | appended active rewrote =>
      obtain ⟨run, run', hfind, happends, hwrote⟩ := rewrote
      exact .inl ⟨_, run, run', active, hfind, happends, hwrote.runs⟩
    | found tool rom rest findings => exact .inr ⟨⟨_, _, _, _, tool⟩, rest.1⟩
    | reproduced tool => simp [tool, Call.isLog] at hlog
    | finished tool => simp [tool, Call.isLog] at hlog
    | started tool => simp [tool, Call.isLog] at hlog
    | rebound _ _ tool =>
      rcases tool with ⟨_, tool⟩ | ⟨_, _, _, _, _, tool⟩
      · simp [tool, Call.isLog] at hlog
      · simp [tool, Call.isLog] at hlog
  · intro now call e w' hserve key
    cases wp_error (wp_serve call) hserve with
    | refused quiet => exact .inl (by rw [quiet.runs])
    | notStarted tool gaveWay quiet =>
      rw [quiet.runs]
      exact gaveWay.closed.runs key

/-- In every state that a server can reach, by any calls with any failures: its active run is stored and running, of
the runs it started no other of the same connection is running unless closing it failed, a recorded call appends one
entry to the active run, entries stay and a finished run gets none, and a refused call changes only runs that it
supersedes. -/
theorem lifecycle_serveAll (hgen : Function.Injective env.gen) (hbegins : Begins env w) (calls : List (String × Call)) :
    Lifecycle env (serveAll env calls w) :=
  (hbegins.steady.serveAll hgen calls).1.lifecycle hgen

end lifecycle

/-- A server over an empty ledger that starts a run, records a metric and starts a run of another connection. -/
theorem lifecycle_serveAll_plain :
    Lifecycle plainEnv (serveAll plainEnv
      [("t0", .runStart "rom" (some "c") none none []), ("t1", .logMetric "hp" 7),
        ("t2", .runStart "rom" (some "d") none none [])] emptyWorld) :=
  lifecycle_serveAll plainEnv_injective ⟨rfl, rfl, by simp [emptyWorld, Table.empty]⟩ _

/-- The operations of a second `run_start` at which saving the first run fails, once as the active run and once as a
stale one. -/
def unsaved : List Choice :=
  let full : Choice := .failing (.io false "No space left on device")
  [.calm, .calm, .calm, .calm, .calm, .calm, .calm, .calm, full, .calm, full]

/-- When the superseded run cannot be saved, the server goes on with two running runs of one connection. -/
theorem two_running :
    let w := serveAll plainEnv
      [("t0", .runStart "romA" (some "c") none none []), ("t1", .runStart "romB" (some "c") none none [])]
      { emptyWorld with choices := unsaved }
    w.ledger.runs.rows.map (fun run => (run.key, run.status, run.connectionRef)) =
        [(("romA", "a"), .running, some "c"), (("romB", "aa"), .running, some "c")] ∧
      w.started = ["aa", "a"] ∧ w.active = some ⟨"romB", "aa", some "c"⟩ ∧ w.abandoned = ["a"] := by
  decide +kernel

end Emucap.Track
