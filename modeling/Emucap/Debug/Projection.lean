import Emucap.Debug.Selection

/-!
# The projection of state groups

A response has members that belong to groups, those of its state or its top-level objects, and others. Where a
projection succeeds, the members of the requested groups are left and the others are as they were (`Projects`). The
group of a member does not depend on the request, so that requests can be joined, and reordered, and repeated.
-/

namespace Emucap.Debug

open Emucap.Lib

variable {requested available applied advertised : List String} {response result : Json}

/-! ## Names -/

theorem eqIgnoreAsciiCase_iff {a b : String} : eqIgnoreAsciiCase a b = true ↔ toAsciiLowercase a = toAsciiLowercase b :=
  beq_iff_eq

theorem containsName_iff {values : List String} {wanted : String} :
    containsName values wanted = true ↔ ∃ value ∈ values, toAsciiLowercase value = toAsciiLowercase wanted := by
  simp only [containsName, List.any_eq_true, eqIgnoreAsciiCase_iff]

theorem containsName_append {values values' : List String} {wanted : String} :
    containsName (values ++ values') wanted = (containsName values wanted || containsName values' wanted) :=
  List.any_append

theorem containsName_congr {values : List String} {a b : String} (h : toAsciiLowercase a = toAsciiLowercase b) :
    containsName values a = containsName values b := by
  unfold containsName eqIgnoreAsciiCase
  rw [h]

/-! ## Resolving -/

theorem resolveGroupName_ok {resolved next : List String} {name : String}
    (h : resolveGroupName available resolved name = .ok next) :
    containsName available name = true ∧
      ∀ other, containsName next other = (containsName resolved other || containsName [name] other) := by
  obtain ⟨u, -, h⟩ := bind_eq_ok.mp h
  rw [orError_bind_eq_ok] at h
  obtain ⟨canonical, hfind, h⟩ := h
  have hmatch := List.find?_some hfind
  have hname : toAsciiLowercase canonical = toAsciiLowercase name := (eqIgnoreAsciiCase_iff).mp hmatch
  refine ⟨(containsName_iff).mpr ⟨canonical, List.mem_of_find?_eq_some hfind, hname⟩, fun other => ?_⟩
  have hsame : containsName [name] other = containsName [canonical] other := by
    simp only [containsName, List.any_cons, List.any_nil, eqIgnoreAsciiCase, hname]
  rw [hsame]
  cases h
  split
  next hcontains =>
    by_cases hother : containsName [canonical] other = true
    · obtain ⟨value, hmem, hvalue⟩ := (containsName_iff).mp hother
      rw [List.mem_singleton.mp hmem] at hvalue
      rw [← containsName_congr hvalue, hcontains, Bool.true_or]
    · rw [Bool.not_eq_true] at hother
      rw [hother, Bool.or_false]
  next => exact containsName_append

theorem resolveGroupNames_ok (h : resolveGroupNames requested available = .ok applied) :
    (∀ name ∈ requested, containsName available name = true) ∧
      ∀ other, containsName applied other = containsName requested other := by
  have hgeneral : ∀ (rest before : List String), rest.foldlM (resolveGroupName available) before = .ok applied →
      (∀ name ∈ rest, containsName available name = true) ∧
        ∀ other, containsName applied other = (containsName before other || containsName rest other) := by
    intro rest
    induction rest with
    | nil =>
      intro before h
      cases h
      exact ⟨nofun, fun other => by simp [containsName]⟩
    | cons name rest ih =>
      intro before h
      rw [List.foldlM_cons, bind_eq_ok] at h
      obtain ⟨next, hstep, hrest⟩ := h
      obtain ⟨hname, hnext⟩ := resolveGroupName_ok hstep
      obtain ⟨hall, happlied⟩ := ih next hrest
      refine ⟨List.forall_mem_cons.mpr ⟨hname, hall⟩, fun other => ?_⟩
      rw [happlied, hnext, Bool.or_assoc, ← containsName_append]
      rfl
  obtain ⟨hall, happlied⟩ := hgeneral requested [] h
  exact ⟨hall, fun other => by rw [happlied]; rfl⟩

theorem resolveGroupNames_congr {available' : List String}
    (hsame : ∀ name ∈ requested,
      available'.find? (eqIgnoreAsciiCase · name) = available.find? (eqIgnoreAsciiCase · name))
    (hsome : ∀ name ∈ requested, containsName available name = true) :
    resolveGroupNames requested available' = resolveGroupNames requested available := by
  have hgeneral : ∀ (rest before : List String), (∀ name ∈ rest, name ∈ requested) →
      rest.foldlM (resolveGroupName available') before = rest.foldlM (resolveGroupName available) before := by
    intro rest
    induction rest with
    | nil => exact fun _ _ => rfl
    | cons name rest ih =>
      intro before hrest
      rw [List.forall_mem_cons] at hrest
      have hstep : resolveGroupName available' before name = resolveGroupName available before name := by
        obtain ⟨canonical, hmem, hname⟩ := (containsName_iff).mp (hsome name hrest.1)
        obtain ⟨found, hfound⟩ : ∃ found, available.find? (eqIgnoreAsciiCase · name) = some found := by
          apply Option.isSome_iff_exists.mp
          rw [List.find?_isSome]
          exact ⟨canonical, hmem, (eqIgnoreAsciiCase_iff).mpr hname⟩
        unfold resolveGroupName
        rw [hsame name hrest.1, hfound]
        rfl
      rw [List.foldlM_cons, List.foldlM_cons, hstep]
      exact bind_congr fun next => ih next hrest.2
  exact hgeneral requested [] fun _ h => h

/-! ## Members and their groups -/

def groupMembers (response : Json) : List (String × Json) :=
  match response.get "state" with
  | some state => state.asObject.getD []
  | none => (response.asObject.getD []).filter isTopLevelGroup

/-- The top-level members that a projection may change. -/
def isProjected (response : Json) (key : String) : Bool :=
  match response.get "state" with
  | some _ => key == "state"
  | none => (topLevelGroupKeys (response.asObject.getD [])).contains key

def hasCpuIdentity (response : Json) : Bool := ((response.get "cpu").bind Json.asStr).isSome

def memberGroup (response : Json) (available : List String) (key : String) : Option String :=
  match response.get "state" with
  | some state =>
    if hasExplicitGroups (state.asObject.getD []) available then stateKeyGroupForAvailable key available
    else (fallbackStateGroup (hasCpuIdentity response) available).toOption
  | none => some key

/-- The group of a member, among those that are advertised or shown. -/
def groupOf (response : Json) (advertised : List String) (key : String) : Option String :=
  match availableGroups response advertised with
  | .ok available => memberGroup response available key
  | .error _ => none

structure Projects (response : Json) (available requested : List String) (result : Json) : Prop where
  named : ∀ name ∈ requested, containsName available name = true
  members : groupMembers result =
    (groupMembers response).filter fun member => (memberGroup response available member.1).any (containsName requested)
  others : ∀ key, key ≠ "groups_applied" → isProjected response key = false → result.get key = response.get key

theorem find?_filter_of_key {fields : List (String × Json)} {p : String → Bool} {key : String} (h : p key = true) :
    OrdMap.find? key (fields.filter fun member => p member.1) = OrdMap.find? key fields := by
  induction fields with
  | nil => rfl
  | cons member fields ih =>
    by_cases hkey : key = member.1
    · rw [List.filter_cons_of_pos (by rw [← hkey]; exact h), OrdMap.find?_cons, OrdMap.find?_cons, if_pos hkey,
        if_pos hkey]
    · rw [List.filter_cons, OrdMap.find?_cons, if_neg hkey]
      split
      · rw [OrdMap.find?_cons, if_neg hkey, ih]
      · exact ih

theorem find?_filter_eq_none {fields : List (String × Json)} {p : String × Json → Bool} {key : String}
    (h : OrdMap.find? key fields = none) : OrdMap.find? key (fields.filter p) = none := by
  rw [← Option.not_isSome_iff_eq_none, OrdMap.find?_isSome_iff] at h ⊢
  intro hmem
  exact h (List.map_subset _ (List.filter_subset_self _) hmem)

theorem filter_insert {fields : List (String × Json)} {p : String × Json → Bool} {key : String} {value : Json}
    (h : ∀ value, p (key, value) = false) : (OrdMap.insert key value fields).filter p = fields.filter p := by
  induction fields with
  | nil => simp [OrdMap.insert, h]
  | cons member fields ih =>
    obtain ⟨key', value'⟩ := member
    rw [OrdMap.insert]
    split
    next heq =>
      subst heq
      rw [List.filter_cons_of_neg (by simp [h]), List.filter_cons_of_neg (by simp [h])]
    next =>
      split
      · rw [List.filter_cons_of_neg (by simp [h])]
      · rw [List.filter_cons, List.filter_cons, ih]

/-! ## One projection -/

theorem asObject_eq_some {v : Json} {fields : List (String × Json)} (h : v.asObject = some fields) :
    v = .obj fields := by
  cases v with
  | obj fields' =>
    cases h
    rfl
  | _ => cases h

theorem containsName_comp (h : ∀ other, containsName applied other = containsName requested other)
    (group : Option String) : group.any (containsName applied) = group.any (containsName requested) := by
  cases group with
  | none => rfl
  | some group => exact h group

section object
variable {fields : List (String × Json)}

theorem memberGroup_of_state {state : List (String × Json)} (h : OrdMap.find? "state" fields = some (.obj state))
    (key : String) :
    memberGroup (.obj fields) available key =
      if hasExplicitGroups state available then stateKeyGroupForAvailable key available
      else (fallbackStateGroup (hasCpuIdentity (.obj fields)) available).toOption := by
  unfold memberGroup
  rw [Json.get_obj, h]
  rfl

theorem projectState_ok {state kept : List (String × Json)} (hstate : OrdMap.find? "state" fields = some (.obj state))
    (happlied : ∀ other, containsName applied other = containsName requested other)
    (h : projectState (hasCpuIdentity (.obj fields)) available applied state = .ok kept) :
    kept = state.filter fun member => (memberGroup (.obj fields) available member.1).any (containsName requested) := by
  unfold projectState at h
  simp only [memberGroup_of_state hstate]
  by_cases hexplicit : hasExplicitGroups state available = true
  · rw [if_pos hexplicit] at h
    simp only [if_pos hexplicit]
    cases h
    exact List.filter_congr fun member _ => containsName_comp happlied _
  · rw [if_neg hexplicit] at h
    obtain ⟨fallback, hfallback, h⟩ := bind_eq_ok.mp h
    simp only [if_neg hexplicit, hfallback, Except.toOption, Option.any_some, ← happlied]
    cases h
    split
    next hcontains => simp [hcontains]
    next hcontains => simp [hcontains]

theorem groupMembers_of_state {state : Json} (h : OrdMap.find? "state" fields = some state) :
    groupMembers (.obj fields) = state.asObject.getD [] := by
  unfold groupMembers
  rw [Json.get_obj, h]

theorem groupMembers_of_none (h : OrdMap.find? "state" fields = none) :
    groupMembers (.obj fields) = fields.filter isTopLevelGroup := by
  unfold groupMembers
  rw [Json.get_obj, h]
  rfl

theorem not_isTopLevelGroup {key : String} (h : metadata.contains key = true) (value : Json) :
    isTopLevelGroup (key, value) = false := by
  simp only [isTopLevelGroup, h, Bool.not_true, Bool.and_false]

theorem filter_topLevel {member : String × Json} (hmem : member ∈ fields) :
    (isTopLevelGroup member && (!(topLevelGroupKeys fields).contains member.1 || containsName applied member.1)) =
      (isTopLevelGroup member && containsName applied member.1) := by
  by_cases hgroup : isTopLevelGroup member = true
  · have hkey : (topLevelGroupKeys fields).contains member.1 = true := by
      rw [List.contains_iff_mem]
      exact List.mem_map_of_mem (List.mem_filter.mpr ⟨hmem, hgroup⟩)
    rw [hkey, Bool.not_true, Bool.false_or]
  · rw [Bool.not_eq_true] at hgroup
    rw [hgroup, Bool.false_and, Bool.false_and]

theorem projectObject_projects {projected : List (String × Json)} {names : Json}
    (hnamed : ∀ name ∈ requested, containsName available name = true)
    (happlied : ∀ other, containsName applied other = containsName requested other)
    (h : projectObject available applied fields = .ok projected) :
    Projects (.obj fields) available requested (.obj (OrdMap.insert "groups_applied" names projected)) := by
  unfold projectObject at h
  have hkey : "state" ≠ "groups_applied" := by decide
  cases hstate : OrdMap.find? "state" fields with
  | some state =>
    rw [hstate] at h
    simp only [orError_bind_eq_ok] at h
    obtain ⟨state', hobject, h⟩ := h
    obtain rfl := asObject_eq_some hobject
    obtain ⟨kept, hkept, h⟩ := bind_eq_ok.mp h
    cases h
    have hkept' := projectState_ok hstate happlied hkept
    refine ⟨hnamed, ?_, fun key hne hprojected => ?_⟩
    · rw [groupMembers_of_state hstate, @groupMembers_of_state _ (.obj kept)]
      · exact hkept'
      · rw [OrdMap.find?_insert_ne hkey, OrdMap.find?_insert_self]
    · have hother : key ≠ "state" := by
        simpa [isProjected, hstate] using hprojected
      rw [Json.get_obj, Json.get_obj, OrdMap.find?_insert_ne hne, OrdMap.find?_insert_ne hother]
  | none =>
    rw [hstate] at h
    simp only [require_bind_eq_ok] at h
    obtain ⟨-, h⟩ := h
    cases h
    refine ⟨hnamed, ?_, fun key hne hprojected => ?_⟩
    · rw [groupMembers_of_none hstate, groupMembers_of_none, filter_insert, List.filter_filter, List.filter_filter]
      · refine List.filter_congr fun member hmem => ?_
        rw [filter_topLevel hmem, happlied]
        simp [memberGroup, hstate, Bool.and_comm]
      · exact not_isTopLevelGroup (by decide)
      · rw [OrdMap.find?_insert_ne hkey]
        exact find?_filter_eq_none hstate
    · have hother : (topLevelGroupKeys fields).contains key = false := by
        unfold isProjected at hprojected
        rw [Json.get_obj, hstate] at hprojected
        exact hprojected
      rw [Json.get_obj, Json.get_obj, OrdMap.find?_insert_ne hne]
      exact find?_filter_of_key (p := fun key => !(topLevelGroupKeys fields).contains key || containsName applied key)
        (by simp only [hother, Bool.not_false, Bool.true_or])

end object

/-- A projection that succeeds, step by step. -/
structure Steps (response : Json) (requested advertised available applied : List String)
    (fields projected : List (String × Json)) : Prop where
  shown : availableGroups response advertised = .ok available
  resolved : resolveGroupNames requested available = .ok applied
  object : response = .obj fields
  kept : projectObject available applied fields = .ok projected

/-- The members that are left, with the names that were applied. -/
def labelled (applied : List String) (projected : List (String × Json)) : Json :=
  .obj (OrdMap.insert "groups_applied" (.arr (applied.map Json.str)) projected)

theorem projectStateGroups_ok (hrequested : requested ≠ []) :
    projectStateGroups response requested advertised = .ok result ↔
      ∃ available applied fields projected, Steps response requested advertised available applied fields projected ∧
        result = labelled applied projected := by
  rw [projectStateGroups, if_neg hrequested]
  constructor
  · intro h
    obtain ⟨available, havailable, h⟩ := bind_eq_ok.mp h
    obtain ⟨applied, happlied, h⟩ := bind_eq_ok.mp h
    rw [orError_bind_eq_ok] at h
    obtain ⟨fields, hobject, h⟩ := h
    obtain ⟨projected, hprojected, h⟩ := bind_eq_ok.mp h
    cases h
    exact ⟨available, applied, fields, projected, ⟨havailable, happlied, asObject_eq_some hobject, hprojected⟩, rfl⟩
  · rintro ⟨available, applied, fields, projected, hsteps, rfl⟩
    rw [hsteps.shown, ok_bind, hsteps.resolved, ok_bind, hsteps.object]
    show (projectObject available applied fields >>= _) = _
    rw [hsteps.kept]
    rfl

theorem Steps.projects {fields projected : List (String × Json)}
    (h : Steps response requested advertised available applied fields projected) :
    Projects response available requested (labelled applied projected) := by
  obtain ⟨hnamed, happlied⟩ := resolveGroupNames_ok h.resolved
  rw [h.object]
  exact projectObject_projects hnamed happlied h.kept

/-! ## The same request again -/

theorem filter_noteGroup {p : String → Bool}
    (hp : ∀ key group, stateKeyGroup key = some group → p key = containsName applied group) (keys acc : List String) :
    (keys.filter p).foldl noteGroup (acc.filter (containsName applied)) =
      (keys.foldl noteGroup acc).filter (containsName applied) := by
  induction keys generalizing acc with
  | nil => rfl
  | cons key keys ih =>
    rw [List.foldl_cons, ← ih, List.filter_cons]
    cases hgroup : stateKeyGroup key with
    | none =>
      have hnote : ∀ groups, noteGroup groups key = groups := fun groups => by rw [noteGroup, hgroup]
      rw [hnote]
      split
      · rw [List.foldl_cons, hnote]
      · rfl
    | some group =>
      have hnote : ∀ groups, noteGroup groups key = if containsName groups group then groups else groups ++ [group] :=
        fun groups => by rw [noteGroup, hgroup]
      rw [hp key group hgroup, hnote]
      by_cases hcontains : containsName applied group = true
      · have hsame : containsName (acc.filter (containsName applied)) group = containsName acc group := by
          rw [Bool.eq_iff_iff, containsName_iff, containsName_iff]
          constructor
          · rintro ⟨value, hmem, hvalue⟩
            exact ⟨value, (List.mem_filter.mp hmem).1, hvalue⟩
          · rintro ⟨value, hmem, hvalue⟩
            exact ⟨value, List.mem_filter.mpr ⟨hmem, by rw [containsName_congr hvalue, hcontains]⟩, hvalue⟩
        rw [if_pos hcontains, List.foldl_cons, hnote, hsame]
        split
        · rfl
        · rw [List.filter_append, List.filter_singleton, hcontains]
          rfl
      · rw [if_neg hcontains]
        split
        · rfl
        · rw [List.filter_append, List.filter_singleton, Bool.not_eq_true _ |>.mp hcontains]
          simp

theorem foldl_noteGroup_eq_nil {keys acc : List String} :
    keys.foldl noteGroup acc = [] ↔ acc = [] ∧ ∀ key ∈ keys, stateKeyGroup key = none := by
  induction keys generalizing acc with
  | nil => simp
  | cons key keys ih =>
    rw [List.foldl_cons, ih, List.forall_mem_cons, ← and_assoc]
    refine and_congr_left fun _ => ?_
    cases hgroup : stateKeyGroup key with
    | none => simp [noteGroup, hgroup]
    | some group =>
      have hne : noteGroup acc key ≠ [] := by
        rw [noteGroup, hgroup]
        dsimp only
        split
        next hcontains =>
          rintro rfl
          exact absurd hcontains (by simp [containsName])
        next => simp
      simp [hne]

section again
variable {fields projected state kept : List (String × Json)} {available' : List String}

theorem discoverStateGroups_of_state (hstate : OrdMap.find? "state" fields = some (.obj state)) {groups : List String}
    (h : discoverStateGroups (.obj fields) = .ok groups) :
    groups ≠ [] ∧ groups = if (state.map Prod.fst).foldl noteGroup [] = [] then ["cpu"]
      else (state.map Prod.fst).foldl noteGroup [] := by
  unfold discoverStateGroups at h
  simp only [Json.asObject, orError, ok_bind, hstate, require_bind_eq_ok] at h
  obtain ⟨hne, h⟩ := h
  cases h
  refine ⟨hne, ?_⟩
  by_cases hgroups : (state.map Prod.fst).foldl noteGroup [] = []
  · rw [if_pos hgroups]
    split
    · rfl
    next hnot =>
      rw [if_neg hnot] at hne
      exact absurd hgroups hne
  · rw [if_neg hgroups, if_neg fun h => hgroups h.1]

theorem discoverStateGroups_of_none (hstate : OrdMap.find? "state" fields = none) {groups : List String}
    (h : discoverStateGroups (.obj fields) = .ok groups) : groups = topLevelGroupKeys fields := by
  unfold discoverStateGroups at h
  simp only [Json.asObject, orError, ok_bind, hstate, require_bind_eq_ok] at h
  cases h.2
  rfl

theorem projectObject_of_state (hstate : OrdMap.find? "state" fields = some (.obj state)) :
    projectObject available applied fields = .ok projected ↔
      ∃ kept, projectState (hasCpuIdentity (.obj fields)) available applied state = .ok kept ∧
        projected = OrdMap.insert "state" (.obj kept) fields := by
  unfold projectObject
  simp only [Json.asObject, orError, ok_bind, hstate]
  rw [bind_eq_ok]
  refine exists_congr fun kept => and_congr Iff.rfl ?_
  exact ⟨fun h => (Except.ok.inj h).symm, fun h => congrArg Except.ok h.symm⟩

theorem containsName_filter {name : String} (h : containsName applied name = true) :
    containsName (available.filter (containsName applied)) name = containsName available name := by
  rw [Bool.eq_iff_iff, containsName_iff, containsName_iff]
  constructor
  · rintro ⟨value, hmem, hvalue⟩
    exact ⟨value, (List.mem_filter.mp hmem).1, hvalue⟩
  · rintro ⟨value, hmem, hvalue⟩
    exact ⟨value, List.mem_filter.mpr ⟨hmem, by rw [containsName_congr hvalue, h]⟩, hvalue⟩

def Narrowed (available applied available' : List String) (explicit : Prop) : Prop :=
  available' = available ∨ available' = available.filter (containsName applied) ∧ explicit

theorem Narrowed.find? {explicit : Prop} (h : Narrowed available applied available' explicit) {name : String}
    (hname : containsName applied name = true) :
    available'.find? (eqIgnoreAsciiCase · name) = available.find? (eqIgnoreAsciiCase · name) := by
  obtain rfl | ⟨rfl, -⟩ := h
  · rfl
  · rw [List.find?_filter]
    congr 1
    funext value
    by_cases hvalue : eqIgnoreAsciiCase value name = true
    · simp [hvalue, containsName_congr (eqIgnoreAsciiCase_iff.mp hvalue), hname]
    · simp [hvalue]

theorem Narrowed.group {explicit : Prop} (h : Narrowed available applied available' explicit) {key : String}
    (hgroup : (stateKeyGroupForAvailable key available).any (containsName applied) = true) :
    (stateKeyGroupForAvailable key available').any (containsName applied) = true := by
  unfold stateKeyGroupForAvailable at hgroup ⊢
  cases hspelled : stateKeyGroup key with
  | some group =>
    rw [hspelled] at hgroup
    exact hgroup
  | none =>
    rw [hspelled, Option.none_or] at hgroup
    rw [Option.none_or, h.find?]
    · exact hgroup
    · obtain ⟨group, hfind, hcontains⟩ := Option.any_eq_true _ _ |>.mp hgroup
      have hmatch := List.find?_some hfind
      rwa [← containsName_congr (eqIgnoreAsciiCase_iff.mp hmatch)]

/-- The state that is left is left again. -/
theorem projectState_again {cpu : Bool} (hkept : projectState cpu available applied state = .ok kept)
    (h : Narrowed available applied available' (hasExplicitGroups state available = true)) (hne : kept ≠ []) :
    projectState cpu available' applied kept = .ok kept := by
  unfold projectState at hkept
  by_cases hexplicit : hasExplicitGroups state available = true
  · rw [if_pos hexplicit] at hkept
    cases hkept
    have hall : ∀ member ∈ state.filter fun member =>
        (stateKeyGroupForAvailable member.1 available).any (containsName applied),
        (stateKeyGroupForAvailable member.1 available').any (containsName applied) = true :=
      fun member hmem => h.group (List.mem_filter.mp hmem).2
    obtain ⟨member, rest, hcons⟩ := List.exists_cons_of_ne_nil hne
    have hagain : hasExplicitGroups (state.filter fun member =>
        (stateKeyGroupForAvailable member.1 available).any (containsName applied)) available' = true := by
      refine List.any_eq_true.mpr ⟨member, by rw [hcons]; exact List.mem_cons_self, ?_⟩
      obtain ⟨group, hgroup, -⟩ := Option.any_eq_true _ _ |>.mp (hall member (by rw [hcons]; exact List.mem_cons_self))
      rw [hgroup]
      rfl
    rw [projectState, if_pos hagain, List.filter_eq_self.mpr hall]
  · obtain rfl | ⟨-, hnot⟩ := h
    · rw [if_neg hexplicit] at hkept
      obtain ⟨fallback, hfallback, hkept⟩ := bind_eq_ok.mp hkept
      cases hkept
      by_cases hcontains : containsName applied fallback = true
      · rw [if_pos hcontains, projectState, if_neg hexplicit, hfallback, ok_bind, if_pos hcontains]
        rfl
      · rw [if_neg hcontains] at hne
        exact absurd rfl hne
    · exact absurd hnot hexplicit

theorem projectState_nil {cpu : Bool} (h : projectState cpu available applied [] = .ok kept) : kept = [] := by
  unfold projectState at h
  rw [if_neg (by simp [hasExplicitGroups])] at h
  obtain ⟨fallback, -, h⟩ := bind_eq_ok.mp h
  cases h
  split <;> rfl

end again

end Emucap.Debug
