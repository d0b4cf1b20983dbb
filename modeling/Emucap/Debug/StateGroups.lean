import Emucap.Debug.Projection

/-!
# What a projection promises

A projection shows the groups of before or those that were applied (`Steps.narrowed`). With the group of every member
fixed, requests are joined, and a member is kept by just the requests that name its group.
-/

namespace Emucap.Debug

open Emucap.Lib

variable {requested available applied advertised available' : List String} {response : Json}
  {fields projected state : List (String × Json)}

/-! ## The second run -/

theorem Steps.contains_applied (h : Steps response requested advertised available applied fields projected)
    (other : String) : containsName applied other = containsName requested other :=
  (resolveGroupNames_ok h.resolved).2 other

theorem Steps.named (h : Steps response requested advertised available applied fields projected) {name : String}
    (hname : name ∈ requested) : containsName applied name = true ∧ containsName available name = true := by
  refine ⟨?_, (resolveGroupNames_ok h.resolved).1 name hname⟩
  rw [h.contains_applied]
  exact containsName_iff.mpr ⟨name, hname, rfl⟩

theorem Steps.filter_ne_nil (h : Steps response requested advertised available applied fields projected)
    (hrequested : requested ≠ []) : available.filter (containsName applied) ≠ [] := by
  obtain ⟨name, rest, rfl⟩ := List.exists_cons_of_ne_nil hrequested
  obtain ⟨happlied, havailable⟩ := h.named List.mem_cons_self
  rw [← containsName_filter happlied] at havailable
  obtain ⟨value, hmem, -⟩ := containsName_iff.mp havailable
  exact List.ne_nil_of_mem hmem

theorem find?_labelled {key : String} (h : key ≠ "groups_applied") :
    (labelled applied projected).get key = OrdMap.find? key projected := OrdMap.find?_insert_ne h _ _

theorem Steps.narrowed (h : Steps response requested advertised available applied fields projected)
    (hrequested : requested ≠ []) (hshown : availableGroups (labelled applied projected) advertised = .ok available') :
    Narrowed available applied available'
      (∀ state, OrdMap.find? "state" fields = some (.obj state) → hasExplicitGroups state available = true) := by
  have hfirst := h.shown
  unfold availableGroups at hshown hfirst
  by_cases hadvertised : advertised = []
  · rw [if_pos hadvertised] at hshown hfirst
    rw [h.object] at hfirst
    have hkey : "state" ≠ "groups_applied" := by decide
    cases hstate : OrdMap.find? "state" fields with
    | some value =>
      have hprojected := h.kept
      unfold projectObject at hprojected
      rw [hstate] at hprojected
      simp only [orError_bind_eq_ok] at hprojected
      obtain ⟨state, hobject, -⟩ := hprojected
      obtain rfl := asObject_eq_some hobject
      obtain ⟨kept, hkept, rfl⟩ := (projectObject_of_state hstate).mp h.kept
      obtain ⟨-, hgroups⟩ := discoverStateGroups_of_state hstate hfirst
      have hstate' : OrdMap.find? "state" (OrdMap.insert "groups_applied" (.arr (applied.map Json.str))
          (OrdMap.insert "state" (.obj kept) fields)) = some (.obj kept) := by
        rw [OrdMap.find?_insert_ne hkey, OrdMap.find?_insert_self]
      obtain ⟨-, hgroups'⟩ := discoverStateGroups_of_state hstate' hshown
      by_cases hnone : (state.map Prod.fst).foldl noteGroup [] = []
      · left
        have hkept' := projectState_ok hstate (fun _ => rfl) hkept
        have hnone' : (kept.map Prod.fst).foldl noteGroup [] = [] := by
          rw [foldl_noteGroup_eq_nil] at hnone ⊢
          refine ⟨rfl, fun key hkey => hnone.2 key ?_⟩
          rw [hkept'] at hkey
          exact List.map_subset _ (List.filter_subset_self _) hkey
        rw [hgroups, hgroups', if_pos hnone, if_pos hnone']
      · right
        rw [if_neg hnone] at hgroups
        have hexplicit : hasExplicitGroups state available = true := by
          by_contra hnot
          apply hnone
          rw [foldl_noteGroup_eq_nil]
          refine ⟨rfl, fun key hkey => ?_⟩
          obtain ⟨member, hmem, rfl⟩ := List.mem_map.mp hkey
          by_contra hspelled
          obtain ⟨group, hgroup⟩ := Option.ne_none_iff_exists'.mp hspelled
          refine hnot (List.any_eq_true.mpr ⟨member, hmem, ?_⟩)
          rw [stateKeyGroupForAvailable, hgroup]
          rfl
        have hkept' : kept =
            state.filter fun member => (stateKeyGroupForAvailable member.1 available).any (containsName applied) := by
          rw [projectState, if_pos hexplicit] at hkept
          exact (Except.ok.inj hkept).symm
        have hnoted := @filter_noteGroup applied
          (fun key => (stateKeyGroupForAvailable key available).any (containsName applied))
          (fun key group hgroup => by rw [stateKeyGroupForAvailable, hgroup]; rfl) (state.map Prod.fst) []
        have hkeys : (state.map Prod.fst).filter
            (fun key => (stateKeyGroupForAvailable key available).any (containsName applied)) = kept.map Prod.fst := by
          rw [List.filter_map, hkept']
          rfl
        rw [hkeys, List.filter_nil, ← hgroups] at hnoted
        rw [hnoted, if_neg (h.filter_ne_nil hrequested)] at hgroups'
        refine ⟨hgroups', fun other hother => ?_⟩
        cases hother
        exact hexplicit
    | none =>
      right
      have hgroups := discoverStateGroups_of_none hstate hfirst
      have hmembers := h.projects.members
      have hstate' : OrdMap.find? "state" projected = none := by
        have hprojected := h.kept
        unfold projectObject at hprojected
        rw [hstate] at hprojected
        simp only [require_bind_eq_ok] at hprojected
        cases hprojected.2
        exact find?_filter_eq_none hstate
      have hstate'' : OrdMap.find? "state" (OrdMap.insert "groups_applied" (.arr (applied.map Json.str)) projected) =
          none := by
        rw [OrdMap.find?_insert_ne hkey, hstate']
      have hgroups' := discoverStateGroups_of_none hstate'' hshown
      rw [h.object, groupMembers_of_none hstate, labelled, groupMembers_of_none hstate''] at hmembers
      refine ⟨?_, fun state hother => by cases hother⟩
      rw [hgroups', topLevelGroupKeys, hmembers, hgroups, topLevelGroupKeys, List.filter_map]
      congr 1
      refine List.filter_congr fun member _ => ?_
      rw [Function.comp_apply, h.contains_applied]
      simp [memberGroup, hstate]
  · rw [if_neg hadvertised] at hshown hfirst
    cases hshown
    cases hfirst
    exact .inl rfl

theorem find?_insert_of_find? {key other : String} {value : Json} (h : OrdMap.find? key fields = some value) :
    OrdMap.find? other (OrdMap.insert key value fields) = OrdMap.find? other fields := by
  by_cases hother : other = key
  · rw [hother, OrdMap.find?_insert_self, h]
  · exact OrdMap.find?_insert_ne hother _ _

theorem filter_of_named {left : List (String × Json)}
    (h : ∀ member ∈ left.filter isTopLevelGroup, containsName applied member.1 = true) :
    (left.filter fun member =>
      !(topLevelGroupKeys left).contains member.1 || containsName applied member.1) = left := by
  rw [List.filter_eq_self]
  intro member _
  by_cases hgroup : (topLevelGroupKeys left).contains member.1 = true
  · rw [List.contains_iff_mem] at hgroup
    obtain ⟨member', hmem', hsame⟩ := List.mem_map.mp hgroup
    rw [← hsame, h member' hmem', Bool.or_true]
  · rw [Bool.not_eq_true] at hgroup
    rw [hgroup]
    rfl

/-- The members that were left are left again, and where some were left there is nothing to object. -/
theorem Steps.projectObject_again (h : Steps response requested advertised available applied fields projected)
    (hnarrowed : Narrowed available applied available'
      (∀ state, OrdMap.find? "state" fields = some (.obj state) → hasExplicitGroups state available = true))
    {left : List (String × Json)} (hleft : labelled applied projected = .obj left) :
    (∀ again, projectObject available' applied left = .ok again →
      ∀ key, OrdMap.find? key again = OrdMap.find? key left) ∧
    (groupMembers (.obj left) ≠ [] → ∃ again, projectObject available' applied left = .ok again) := by
  obtain rfl := Json.obj.inj hleft
  have hkey : "state" ≠ "groups_applied" := by decide
  have hfirst := h.kept
  unfold projectObject at hfirst
  cases hstate : OrdMap.find? "state" fields with
  | some value =>
    rw [hstate] at hfirst
    simp only [orError_bind_eq_ok] at hfirst
    obtain ⟨state, hobject, -⟩ := hfirst
    obtain rfl := asObject_eq_some hobject
    obtain ⟨kept, hkept, rfl⟩ := (projectObject_of_state hstate).mp h.kept
    have hstate' : OrdMap.find? "state" (OrdMap.insert "groups_applied" (.arr (applied.map Json.str))
        (OrdMap.insert "state" (.obj kept) fields)) = some (.obj kept) := by
      rw [OrdMap.find?_insert_ne hkey, OrdMap.find?_insert_self]
    have hcpu : hasCpuIdentity (.obj (OrdMap.insert "groups_applied" (.arr (applied.map Json.str))
        (OrdMap.insert "state" (.obj kept) fields))) = hasCpuIdentity (.obj fields) := by
      rw [hasCpuIdentity, Json.get_obj, OrdMap.find?_insert_ne (by decide), OrdMap.find?_insert_ne (by decide)]
      rfl
    have hnarrowed' : Narrowed available applied available' (hasExplicitGroups state available = true) :=
      hnarrowed.imp_right fun h => ⟨h.1, h.2 state hstate⟩
    rw [groupMembers_of_state hstate']
    constructor
    · intro again hagain key
      obtain ⟨kept', hkept', rfl⟩ := (projectObject_of_state hstate').mp hagain
      rw [hcpu] at hkept'
      have hsame : kept' = kept := by
        by_cases hne : kept = []
        · subst hne
          exact projectState_nil hkept'
        · rw [projectState_again hkept hnarrowed' hne] at hkept'
          exact (Except.ok.inj hkept').symm
      rw [hsame]
      exact find?_insert_of_find? hstate'
    · intro hne
      refine ⟨_, (projectObject_of_state hstate').mpr ⟨kept, ?_, rfl⟩⟩
      rw [hcpu]
      exact projectState_again hkept hnarrowed' hne
  | none =>
    rw [hstate] at hfirst
    simp only [require_bind_eq_ok] at hfirst
    obtain ⟨-, hfirst⟩ := hfirst
    cases hfirst
    have hstate' : OrdMap.find? "state" (OrdMap.insert "groups_applied" (.arr (applied.map Json.str))
        (fields.filter fun member => !(topLevelGroupKeys fields).contains member.1 ||
          containsName applied member.1)) = none := by
      rw [OrdMap.find?_insert_ne hkey]
      exact find?_filter_eq_none hstate
    have hgroups : ∀ member ∈ (OrdMap.insert "groups_applied" (.arr (applied.map Json.str))
        (fields.filter fun member => !(topLevelGroupKeys fields).contains member.1 ||
          containsName applied member.1)).filter isTopLevelGroup, containsName applied member.1 = true := by
      rw [filter_insert (not_isTopLevelGroup (by decide))]
      intro member hmem
      obtain ⟨hleft, hgroup⟩ := List.mem_filter.mp hmem
      obtain ⟨hfields, hkept⟩ := List.mem_filter.mp hleft
      have hfilter := @filter_topLevel applied fields member hfields
      rw [hgroup, hkept] at hfilter
      simpa using hfilter.symm
    rw [groupMembers_of_none hstate']
    unfold projectObject
    rw [hstate']
    simp only [require_bind_eq_ok]
    constructor
    · rintro again ⟨-, hagain⟩ key
      cases hagain
      rw [filter_of_named hgroups]
    · intro hne
      exact ⟨_, by rwa [topLevelGroupKeys, ne_eq, List.map_eq_nil_iff], rfl⟩

theorem Steps.again (h : Steps response requested advertised available applied fields projected)
    (hrequested : requested ≠ []) {again : Json}
    (hagain : projectStateGroups (labelled applied projected) requested advertised = .ok again) (key : String) :
    again.get key = (labelled applied projected).get key := by
  obtain ⟨available', applied', left, projected', hsteps, rfl⟩ := (projectStateGroups_ok hrequested).mp hagain
  have hnarrowed := h.narrowed hrequested hsteps.shown
  have hnames : resolveGroupNames requested available' = resolveGroupNames requested available :=
    resolveGroupNames_congr (fun name hname => hnarrowed.find? (h.named hname).1) fun name hname => (h.named hname).2
  have hsame : applied' = applied := by
    have hresolved := hsteps.resolved
    rw [hnames, h.resolved] at hresolved
    exact (Except.ok.inj hresolved).symm
  subst hsame
  have hleft := (h.projectObject_again hnarrowed hsteps.object).1 projected' hsteps.kept
  by_cases hkey : key = "groups_applied"
  · rw [hkey, labelled, labelled, Json.get_obj, Json.get_obj, OrdMap.find?_insert_self, OrdMap.find?_insert_self]
  · rw [find?_labelled hkey, hleft key, hsteps.object, Json.get_obj]

theorem discoverStateGroups_of_groupMembers (h : groupMembers (.obj fields) ≠ []) :
    ∃ groups, discoverStateGroups (.obj fields) = .ok groups := by
  unfold discoverStateGroups
  simp only [Json.asObject, orError, ok_bind]
  cases hstate : OrdMap.find? "state" fields with
  | some value =>
    rw [groupMembers_of_state hstate] at h
    obtain ⟨state, hobject⟩ : ∃ state, value.asObject = some state := by
      apply Option.ne_none_iff_exists'.mp
      intro hnone
      rw [hnone] at h
      exact h rfl
    obtain rfl := asObject_eq_some hobject
    have hne : state ≠ [] := h
    refine ⟨_, require_bind_eq_ok.mpr ⟨?_, rfl⟩⟩
    split
    · simp
    next hnot => exact fun hnil => hnot ⟨hnil, .inl hne⟩
  | none =>
    rw [groupMembers_of_none hstate] at h
    exact ⟨_, require_bind_eq_ok.mpr ⟨by rwa [topLevelGroupKeys, ne_eq, List.map_eq_nil_iff], rfl⟩⟩

theorem Steps.again_ok (h : Steps response requested advertised available applied fields projected)
    (hrequested : requested ≠ []) (hleft : groupMembers (labelled applied projected) ≠ []) :
    ∃ again, projectStateGroups (labelled applied projected) requested advertised = .ok again := by
  obtain ⟨available', hshown⟩ :
      ∃ available', availableGroups (labelled applied projected) advertised = .ok available' := by
    unfold availableGroups
    by_cases hadvertised : advertised = []
    · rw [if_pos hadvertised]
      exact discoverStateGroups_of_groupMembers hleft
    · rw [if_neg hadvertised]
      exact ⟨advertised, rfl⟩
  have hnarrowed := h.narrowed hrequested hshown
  have hnames : resolveGroupNames requested available' = resolveGroupNames requested available :=
    resolveGroupNames_congr (fun name hname => hnarrowed.find? (h.named hname).1) fun name hname => (h.named hname).2
  obtain ⟨again, hagain⟩ := (h.projectObject_again hnarrowed rfl).2 hleft
  exact ⟨_, (projectStateGroups_ok hrequested).mpr
    ⟨available', applied, _, again, ⟨hshown, hnames.trans h.resolved, rfl, hagain⟩, rfl⟩⟩

/-! ## Two requests -/

theorem resolveGroupName_anywhere {resolved next : List String} {name : String}
    (h : resolveGroupName available resolved name = .ok next) (resolved' : List String) :
    ∃ next', resolveGroupName available resolved' name = .ok next' := by
  obtain ⟨u, hvalid, h⟩ := bind_eq_ok.mp h
  rw [orError_bind_eq_ok] at h
  obtain ⟨canonical, hfind, -⟩ := h
  rw [resolveGroupName, hvalid, ok_bind, hfind]
  exact ⟨_, rfl⟩

theorem resolveGroupNames_anywhere {before after : List String}
    (h : requested.foldlM (resolveGroupName available) before = .ok after) (before' : List String) :
    ∃ after', requested.foldlM (resolveGroupName available) before' = .ok after' := by
  induction requested generalizing before before' with
  | nil => exact ⟨before', rfl⟩
  | cons name rest ih =>
    rw [List.foldlM_cons, bind_eq_ok] at h
    obtain ⟨next, hstep, hrest⟩ := h
    obtain ⟨next', hstep'⟩ := resolveGroupName_anywhere hstep before'
    obtain ⟨after', hafter⟩ := ih hrest next'
    exact ⟨after', by rw [List.foldlM_cons, hstep', ok_bind, hafter]⟩

theorem projectObject_anyNames (h : projectObject available applied fields = .ok projected) (applied' : List String) :
    ∃ projected', projectObject available applied' fields = .ok projected' := by
  unfold projectObject at h ⊢
  cases hstate : OrdMap.find? "state" fields with
  | some value =>
    rw [hstate] at h
    simp only [orError_bind_eq_ok] at h ⊢
    obtain ⟨state, hobject, h⟩ := h
    obtain ⟨kept, hkept, -⟩ := bind_eq_ok.mp h
    unfold projectState at hkept ⊢
    split at hkept
    next hexplicit => exact ⟨_, state, hobject, by rw [if_pos hexplicit]; rfl⟩
    next hexplicit =>
      obtain ⟨fallback, hfallback, -⟩ := bind_eq_ok.mp hkept
      exact ⟨_, state, hobject, by rw [if_neg hexplicit, hfallback]; rfl⟩
  | none =>
    rw [hstate] at h
    simp only [require_bind_eq_ok] at h ⊢
    exact ⟨_, h.1, rfl⟩

theorem Steps.append {requested' applied' : List String} {projected' : List (String × Json)}
    (h : Steps response requested advertised available applied fields projected)
    (h' : Steps response requested' advertised available applied' fields projected') :
    ∃ both left, Steps response (requested ++ requested') advertised available both fields left := by
  obtain ⟨both, hboth⟩ := resolveGroupNames_anywhere h'.resolved applied
  obtain ⟨left, hleft⟩ := projectObject_anyNames h.kept both
  refine ⟨both, left, h.shown, ?_, h.object, hleft⟩
  have hfirst := h.resolved
  unfold resolveGroupNames at hfirst ⊢
  rw [List.foldlM_append, hfirst, ok_bind, hboth]

/-! ## Advertised names -/

theorem parseNameList_distinct {value : Option Json} {field : String} {names : List String}
    (h : parseNameList value field = .ok names) : (names.map toAsciiLowercase).Nodup := by
  unfold parseNameList at h
  cases value with
  | none =>
    cases h
    exact List.nodup_nil
  | some value =>
    rw [orError_bind_eq_ok] at h
    obtain ⟨values, -, h⟩ := h
    obtain ⟨⟨found, seen⟩, hloop, h⟩ := bind_eq_ok.mp h
    cases h
    have hgeneral : ∀ (rest : List Json) (before after : List String × List (List Char)),
        (before.1.map toAsciiLowercase).Nodup → (∀ name, name ∈ before.1.map toAsciiLowercase ↔ name ∈ before.2) →
        rest.foldlM (parseName field) before = .ok after → (after.1.map toAsciiLowercase).Nodup := by
      intro rest
      induction rest with
      | nil =>
        intro before after hnodup _ hrun
        cases hrun
        exact hnodup
      | cons value rest ih =>
        intro before after hnodup hseen hrun
        rw [List.foldlM_cons, bind_eq_ok] at hrun
        obtain ⟨next, hstep, hrest⟩ := hrun
        rw [parseName, orError_bind_eq_ok] at hstep
        obtain ⟨name, -, hstep⟩ := hstep
        obtain ⟨u, -, hstep⟩ := bind_eq_ok.mp hstep
        obtain ⟨hnew, hstep⟩ := require_bind_eq_ok.mp hstep
        cases hstep
        rw [← hseen] at hnew
        refine ih _ after ?_ ?_ hrest
        · rw [List.map_append, List.nodup_append]
          refine ⟨hnodup, by simp, ?_⟩
          intro a ha b hb heq
          rw [List.map_singleton, List.mem_singleton] at hb
          exact hnew (by rwa [← hb, ← heq])
        · intro other
          rw [List.map_append, List.mem_append, hseen, List.map_singleton, List.mem_singleton, List.mem_cons]
          exact or_comm
    exact hgeneral values ([], []) (found, seen) List.nodup_nil (by simp) hloop

theorem parseDebugCapabilities_distinct {t : Texts} {hello : Json} {targets : List CpuTarget}
    (h : parseDebugCapabilities t hello = .ok (advertised, targets)) : (advertised.map toAsciiLowercase).Nodup := by
  obtain ⟨stateGroups, hgroups, h⟩ := bind_eq_ok.mp h
  have hsame : stateGroups = advertised := by
    cases hvalue : hello.get "cpu_targets" with
    | none =>
      rw [hvalue] at h
      cases h
      rfl
    | some value =>
      rw [hvalue] at h
      simp only [orError_bind_eq_ok] at h
      obtain ⟨values, -, h⟩ := h
      obtain ⟨⟨found, names⟩, -, h⟩ := bind_eq_ok.mp h
      obtain ⟨-, h⟩ := require_bind_eq_ok.mp h
      cases h
      rfl
  exact hsame ▸ parseNameList_distinct hgroups

/-! ## The laws -/

/-- What one request leaves, and what it leaves of that. -/
structure Projected (response : Json) (advertised requested : List String) (result : Json) : Prop where
  members : groupMembers result =
    (groupMembers response).filter fun member => (groupOf response advertised member.1).any (containsName requested)
  others : ∀ key, key ≠ "groups_applied" → isProjected response key = false → result.get key = response.get key
  again : ∀ again, projectStateGroups result requested advertised = .ok again → ∀ key, again.get key = result.get key
  again_ok : groupMembers result ≠ [] → ∃ again, projectStateGroups result requested advertised = .ok again

theorem groupOf_of_ok (h : availableGroups response advertised = .ok available) (key : String) :
    groupOf response advertised key = memberGroup response available key := by
  rw [groupOf, h]

theorem projectStateGroups_projected {result : Json} (hrequested : requested ≠ [])
    (h : projectStateGroups response requested advertised = .ok result) :
    Projected response advertised requested result := by
  obtain ⟨available, applied, fields, projected, hsteps, rfl⟩ := (projectStateGroups_ok hrequested).mp h
  have hprojects := hsteps.projects
  refine ⟨?_, hprojects.others, fun again hagain key => hsteps.again hrequested hagain key, hsteps.again_ok hrequested⟩
  simp only [groupOf_of_ok hsteps.shown]
  exact hprojects.members

/-- A member is left by just the requests that name its group, and the rest of the response is as it was. -/
theorem state_group_projection (t : Texts) (hello response : Json) (advertised : List String) (targets : List CpuTarget)
    (hadvertised : parseDebugCapabilities t hello = .ok (advertised, targets)) :
    projectStateGroups response [] advertised = .ok response ∧
    (∀ requested result, requested ≠ [] → projectStateGroups response requested advertised = .ok result →
      Projected response advertised requested result) ∧
    (∀ requested requested' result result', requested ≠ [] → requested' ≠ [] →
      projectStateGroups response requested advertised = .ok result →
      projectStateGroups response requested' advertised = .ok result' →
      ((∀ name, containsName requested name = containsName requested' name) →
        groupMembers result = groupMembers result') ∧
      ∃ both, projectStateGroups response (requested ++ requested') advertised = .ok both ∧
        ∀ member, member ∈ groupMembers both ↔ member ∈ groupMembers result ∨ member ∈ groupMembers result') ∧
    (∀ available requested result, availableGroups response advertised = .ok available → requested ≠ [] →
      (∀ group ∈ available, containsName requested group = true) →
      projectStateGroups response requested advertised = .ok result →
      groupMembers result = (groupMembers response).filter fun member =>
        (groupOf response advertised member.1).any (containsName available)) ∧
    (advertised.map toAsciiLowercase).Nodup := by
  refine ⟨if_pos rfl, fun requested result hrequested h => projectStateGroups_projected hrequested h, ?_, ?_,
    parseDebugCapabilities_distinct hadvertised⟩
  · intro requested requested' result result' hrequested hrequested' h h'
    have hmembers := (projectStateGroups_projected hrequested h).members
    have hmembers' := (projectStateGroups_projected hrequested' h').members
    constructor
    · intro hsame
      rw [hmembers, hmembers']
      exact List.filter_congr fun member _ => containsName_comp hsame _
    · obtain ⟨available, applied, fields, projected, hsteps, -⟩ := (projectStateGroups_ok hrequested).mp h
      obtain ⟨available', applied', fields', projected', hsteps', -⟩ := (projectStateGroups_ok hrequested').mp h'
      obtain rfl : available' = available := Except.ok.inj (hsteps'.shown.symm.trans hsteps.shown)
      obtain rfl : fields' = fields := Json.obj.inj (hsteps'.object.symm.trans hsteps.object)
      obtain ⟨both, left, hboth⟩ := hsteps.append hsteps'
      have hne : requested ++ requested' ≠ [] := by simp [hrequested]
      have hrun : projectStateGroups response (requested ++ requested') advertised = .ok (labelled both left) :=
        (projectStateGroups_ok hne).mpr ⟨_, _, _, _, hboth, rfl⟩
      refine ⟨_, hrun, fun member => ?_⟩
      rw [(projectStateGroups_projected hne hrun).members, hmembers, hmembers', List.mem_filter, List.mem_filter,
        List.mem_filter, ← and_or_left]
      refine and_congr_right fun _ => ?_
      cases groupOf response advertised member.1 with
      | none => simp
      | some group => simp [containsName_append]
  · intro available requested result havailable hrequested hall h
    rw [(projectStateGroups_projected hrequested h).members]
    obtain ⟨available', applied, fields, projected, hsteps, -⟩ := (projectStateGroups_ok hrequested).mp h
    obtain rfl : available' = available := Except.ok.inj (hsteps.shown.symm.trans havailable)
    have hsame : ∀ name, containsName requested name = containsName available' name := by
      intro name
      rw [Bool.eq_iff_iff]
      constructor
      · intro hname
        obtain ⟨value, hmem, hvalue⟩ := containsName_iff.mp hname
        rw [← containsName_congr hvalue]
        exact (hsteps.named hmem).2
      · intro hname
        obtain ⟨value, hmem, hvalue⟩ := containsName_iff.mp hname
        rw [← containsName_congr hvalue]
        exact hall value hmem
    exact List.filter_congr fun member _ => containsName_comp hsame _

def plainTexts : Texts := ⟨fun _ => "", fun s => s⟩

def twoGroups : Json := .obj [("frame", .nat 9), ("state", .obj [("cpu.pc", .nat 1), ("ppu.x", .nat 2)])]

theorem state_group_projection_ppu :
    Projected twoGroups ["cpu", "ppu"] ["PPU"]
      (.obj [("frame", .nat 9), ("groups_applied", .arr [.str "ppu"]), ("state", .obj [("ppu.x", .nat 2)])]) :=
  (state_group_projection plainTexts (.obj [("state_groups", .arr [.str "cpu", .str "ppu"])]) twoGroups ["cpu", "ppu"]
    [] (by decide +kernel)).2.1 ["PPU"] _ (by decide) (by decide +kernel)

def mixedState : Json := .obj [("state", .obj [("cpu.pc", .nat 1), ("frame", .nat 2)])]

def otherState : Json := .obj [("groups_applied", .null), ("state", .obj [("ppu.x", .nat 1)])]

def emptiedState : Json := .obj [("groups_applied", .arr [.str "cpu"]), ("state", .obj [])]

/-- Beside a key with a prefix a plain key has no group; no request is one for everything; and a state of which nothing
is left is not projected again. -/
theorem odd_keys_without_group :
    availableGroups mixedState [] = .ok ["cpu"] ∧ projectStateGroups mixedState [] [] = .ok mixedState ∧
      projectStateGroups mixedState ["cpu"] [] =
        .ok (.obj [("groups_applied", .arr [.str "cpu"]), ("state", .obj [("cpu.pc", .nat 1)])]) ∧
      projectStateGroups otherState ["cpu"] ["cpu", "ppu"] = .ok emptiedState ∧
      projectStateGroups emptiedState ["cpu"] ["cpu", "ppu"] =
        .error "unprefixed get_state keys cannot be assigned to more than one state group" := by
  decide +kernel

end Emucap.Debug
