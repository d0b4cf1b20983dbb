import Emucap.Lib.Json
import Mathlib.Data.List.Nodup

/-!
# The leaves of a document

The leaves of a document are the values below it that are no objects, each with the member names that lead to
it. An object without members has no leaves: `prune` drops all such members, and keeps the leaves. In a document
whose objects have no name twice, a leaf is what `getPath` finds under its names.
-/

namespace Emucap.Lib.Json

theorem memberInduction {motive : Json → Prop} (leaf : ∀ v, v.isObject = false → motive v)
    (object : ∀ fields, (∀ member ∈ fields, motive member.2) → motive (.obj fields)) (v : Json) : motive v := by
  refine Json.rec (motive_1 := motive) (motive_2 := fun _ => True)
    (motive_3 := fun fields => ∀ member ∈ fields, motive member.2) (motive_4 := fun member => motive member.2)
    (leaf _ rfl) (fun _ => leaf _ rfl) (fun _ => leaf _ rfl) (fun _ => leaf _ rfl) (fun _ => leaf _ rfl)
    (fun _ => leaf _ rfl) (fun _ _ => leaf _ rfl) (fun fields ih => object fields ih) trivial (fun _ _ _ _ => trivial)
    ?_ ?_ (fun _ _ ih => ih) v
  · intro member hmem
    exact absurd hmem List.not_mem_nil
  · intro head tail hhead htail member hmem
    rcases List.mem_cons.mp hmem with rfl | hmem
    · exact hhead
    · exact htail member hmem

/-! ## Leaves -/

mutual

def leaves : Json → List (List String × Json)
  | .obj fields => memberLeaves fields
  | v => [([], v)]

def memberLeaves : List (String × Json) → List (List String × Json)
  | [] => []
  | (name, value) :: rest => (leaves value).map (fun leaf => (name :: leaf.1, leaf.2)) ++ memberLeaves rest

end

theorem leaves_of_not_object {v : Json} (h : v.isObject = false) : v.leaves = [([], v)] := by
  cases v with
  | obj fields => cases h
  | _ => simp [leaves]

theorem mem_memberLeaves {fields : List (String × Json)} {leaf : List String × Json} :
    leaf ∈ memberLeaves fields ↔ ∃ member ∈ fields, ∃ below ∈ member.2.leaves,
      leaf = (member.1 :: below.1, below.2) := by
  induction fields with
  | nil => simp [memberLeaves]
  | cons member rest ih =>
    obtain ⟨name, value⟩ := member
    simp only [memberLeaves, List.mem_append, List.mem_map, ih, List.mem_cons, exists_eq_or_imp]
    refine or_congr_left ⟨?_, ?_⟩
    · rintro ⟨below, hbelow, rfl⟩
      exact ⟨below, hbelow, rfl⟩
    · rintro ⟨below, hbelow, rfl⟩
      exact ⟨below, hbelow, rfl⟩

/-! ## Objects without members -/

mutual

/-- Neither the value nor anything below it is an object without members. -/
def isFull : Json → Bool
  | .obj fields => !fields.isEmpty && membersFull fields
  | _ => true

def membersFull : List (String × Json) → Bool
  | [] => true
  | (_, value) :: rest => isFull value && membersFull rest

end

theorem membersFull_iff {fields : List (String × Json)} :
    membersFull fields = true ↔ ∀ member ∈ fields, member.2.isFull = true := by
  induction fields with
  | nil => simp [membersFull]
  | cons member rest ih => simp [membersFull, ih]

/-- No member of the document, at any depth, is an object without members. -/
def noEmptyMembers : Json → Bool
  | .obj fields => membersFull fields
  | _ => true

theorem noEmptyMembers_of_isFull {v : Json} (h : v.isFull = true) : v.noEmptyMembers = true := by
  cases v with
  | obj fields =>
    rw [isFull, Bool.and_eq_true] at h
    exact h.2
  | _ => rfl

theorem isFull_of_not_object {v : Json} (h : v.isObject = false) : v.isFull = true := by
  cases v with
  | obj fields => cases h
  | _ => simp [isFull]

theorem leaves_ne_nil (v : Json) : v.isFull = true → v.leaves ≠ [] := by
  induction v using memberInduction with
  | leaf v hv =>
    intro _
    rw [leaves_of_not_object hv]
    exact List.cons_ne_nil _ _
  | object fields ih =>
    intro hfull
    rw [isFull, Bool.and_eq_true, membersFull_iff] at hfull
    cases fields with
    | nil => simp at hfull
    | cons member rest =>
      have hhead := ih member (by simp) (hfull.2 member (by simp))
      simp only [leaves, memberLeaves]
      simp [hhead]

mutual

/-- The document without the members that have no leaves. -/
def prune : Json → Json
  | .obj fields => .obj (pruneMembers fields)
  | v => v

def pruneMembers : List (String × Json) → List (String × Json)
  | [] => []
  | (name, value) :: rest =>
    if prune value = .obj [] then pruneMembers rest else (name, prune value) :: pruneMembers rest

end

theorem prune_of_not_object {v : Json} (h : v.isObject = false) : v.prune = v := by
  cases v with
  | obj fields => cases h
  | _ => simp [prune]

theorem mem_pruneMembers {fields : List (String × Json)} {member : String × Json} :
    member ∈ pruneMembers fields ↔ ∃ member' ∈ fields, member'.2.prune ≠ .obj [] ∧
      member = (member'.1, member'.2.prune) := by
  induction fields with
  | nil => simp [pruneMembers]
  | cons head rest ih =>
    obtain ⟨name, value⟩ := head
    by_cases hempty : value.prune = .obj []
    · rw [pruneMembers, if_pos hempty, ih]
      simp only [List.mem_cons, exists_eq_or_imp, hempty, ne_eq, not_true, false_and, false_or]
    · rw [pruneMembers, if_neg hempty, List.mem_cons, ih]
      simp only [List.mem_cons, exists_eq_or_imp, ne_eq, hempty, not_false_eq_true, true_and]

theorem prune_full (v : Json) : v.prune = .obj [] ∨ v.prune.isFull = true := by
  induction v using memberInduction with
  | leaf v hv =>
    rw [prune_of_not_object hv]
    exact .inr (isFull_of_not_object hv)
  | object fields ih =>
    rw [prune]
    by_cases hnil : pruneMembers fields = []
    · exact .inl (by rw [hnil])
    · refine .inr ?_
      rw [isFull, Bool.and_eq_true, membersFull_iff]
      refine ⟨by simpa using hnil, fun member hmem => ?_⟩
      obtain ⟨member', hmem', hne, rfl⟩ := (mem_pruneMembers).mp hmem
      exact (ih member' hmem').resolve_left hne

theorem leaves_prune (v : Json) : v.prune.leaves = v.leaves := by
  induction v using memberInduction with
  | leaf v hv => rw [prune_of_not_object hv]
  | object fields ih =>
    rw [prune, leaves, leaves]
    induction fields with
    | nil => rfl
    | cons head rest ihrest =>
      obtain ⟨name, value⟩ := head
      have hvalue := ih (name, value) (by simp)
      have hrest := ihrest fun member hmem => ih member (by simp [hmem])
      simp only at hvalue
      by_cases hempty : value.prune = .obj []
      · rw [hempty] at hvalue
        simp only [leaves, memberLeaves] at hvalue
        rw [pruneMembers, if_pos hempty, memberLeaves, ← hvalue, List.map_nil, List.nil_append, hrest]
      · rw [pruneMembers, if_neg hempty, memberLeaves, memberLeaves, hvalue, hrest]

theorem prune_eq (v : Json) : v.noEmptyMembers = true → v.prune = v := by
  induction v using memberInduction with
  | leaf v hv =>
    intro _
    exact prune_of_not_object hv
  | object fields ih =>
    intro h
    rw [noEmptyMembers] at h
    rw [prune]
    congr 1
    induction fields with
    | nil => rfl
    | cons head rest ihrest =>
      obtain ⟨name, value⟩ := head
      rw [membersFull, Bool.and_eq_true] at h
      have hvalue : value.prune = value := ih (name, value) (by simp) (noEmptyMembers_of_isFull h.1)
      have hne : value.prune ≠ .obj [] := by
        rw [hvalue]
        rintro rfl
        simp [isFull] at h
      rw [pruneMembers, if_neg hne, hvalue, ihrest (fun member hmem => ih member (by simp [hmem])) h.2]

/-! ## Names -/

mutual

def UniqueKeys : Json → Prop
  | .obj fields => (fields.map Prod.fst).Nodup ∧ MembersUnique fields
  | _ => True

def MembersUnique : List (String × Json) → Prop
  | [] => True
  | (_, value) :: rest => UniqueKeys value ∧ MembersUnique rest

end

theorem membersUnique_iff {fields : List (String × Json)} :
    MembersUnique fields ↔ ∀ member ∈ fields, member.2.UniqueKeys := by
  induction fields with
  | nil => simp [MembersUnique]
  | cons member rest ih => simp [MembersUnique, ih]

theorem uniqueKeys_obj {fields : List (String × Json)} :
    (Json.obj fields).UniqueKeys ↔ (fields.map Prod.fst).Nodup ∧ ∀ member ∈ fields, member.2.UniqueKeys := by
  rw [UniqueKeys, membersUnique_iff]

theorem uniqueKeys_of_not_object {v : Json} (h : v.isObject = false) : v.UniqueKeys := by
  cases v with
  | obj fields => cases h
  | _ => simp [UniqueKeys]

theorem prune_uniqueKeys (v : Json) : v.UniqueKeys → v.prune.UniqueKeys := by
  induction v using memberInduction with
  | leaf v hv =>
    intro h
    rwa [prune_of_not_object hv]
  | object fields ih =>
    intro h
    obtain ⟨hnodup, hbelow⟩ := (uniqueKeys_obj).mp h
    rw [prune, uniqueKeys_obj]
    refine ⟨?_, fun member hmem => ?_⟩
    · have hsub : ∀ fields : List (String × Json), ((pruneMembers fields).map Prod.fst).Sublist (fields.map Prod.fst) := by
        intro fields
        induction fields with
        | nil => exact List.Sublist.refl _
        | cons head rest ihrest =>
          rw [pruneMembers]
          split_ifs with hempty
          · exact ihrest.cons _
          · exact ihrest.cons_cons _
      exact (hsub fields).nodup hnodup
    · obtain ⟨member', hmem', -, rfl⟩ := (mem_pruneMembers).mp hmem
      exact ih member' hmem' (hbelow member' hmem')

theorem leaves_nodup (v : Json) : v.UniqueKeys → (v.leaves.map Prod.fst).Nodup := by
  induction v using memberInduction with
  | leaf v hv =>
    intro _
    rw [leaves_of_not_object hv]
    exact List.nodup_singleton _
  | object fields ih =>
    intro h
    obtain ⟨hnodup, hbelow⟩ := (uniqueKeys_obj).mp h
    rw [leaves]
    clear h
    induction fields with
    | nil => exact List.nodup_nil
    | cons head rest ihrest =>
      obtain ⟨name, value⟩ := head
      rw [List.map_cons, List.nodup_cons] at hnodup
      have hvalue := ih (name, value) (by simp) (hbelow (name, value) (by simp))
      have hrest := ihrest (fun member hmem => ih member (by simp [hmem])) hnodup.2
        (fun member hmem => hbelow member (by simp [hmem]))
      rw [memberLeaves, List.map_append, List.map_map, List.nodup_append]
      refine ⟨?_, hrest, ?_⟩
      · have hcons : (value.leaves.map (Prod.fst ∘ fun leaf => (name :: leaf.1, leaf.2))) =
            (value.leaves.map Prod.fst).map (name :: ·) := by
          rw [List.map_map]
          rfl
        rw [hcons]
        exact hvalue.map List.cons_injective
      · rintro path hpath path' hpath' rfl
        obtain ⟨leaf, -, rfl⟩ := List.mem_map.mp hpath
        obtain ⟨leaf', hleaf', heq⟩ := List.mem_map.mp hpath'
        obtain ⟨member, hmem, below, -, rfl⟩ := (mem_memberLeaves).mp hleaf'
        have hname : member.1 = name := (List.cons.inj heq).1
        have hin : member.1 ∈ rest.map Prod.fst := List.mem_map_of_mem hmem
        rw [hname] at hin
        exact hnodup.1 hin

/-! ## Looking up -/

def getPath (v : Json) (path : List String) : Option Json := path.foldlM get v

theorem getPath_cons (v : Json) (name : String) (path : List String) :
    v.getPath (name :: path) = (v.get name).bind fun below => below.getPath path := by
  rw [getPath, List.foldlM_cons]
  rfl

theorem getPath_append (v : Json) (path path' : List String) :
    v.getPath (path ++ path') = (v.getPath path).bind fun below => below.getPath path' := by
  rw [getPath, List.foldlM_append]
  rfl

theorem getPath_of_not_object {v : Json} (h : v.isObject = false) {path : List String} (hpath : path ≠ []) :
    v.getPath path = none := by
  cases path with
  | nil => exact absurd rfl hpath
  | cons name path =>
    rw [getPath_cons]
    cases v with
    | obj fields => cases h
    | _ => rfl

theorem mem_leaves_of_getPath {v : Json} {path : List String} {value : Json} (h : v.getPath path = some value)
    (hvalue : value.isObject = false) : (path, value) ∈ v.leaves := by
  induction path generalizing v with
  | nil =>
    obtain rfl := Option.some.inj h
    rw [leaves_of_not_object hvalue]
    exact List.mem_singleton_self _
  | cons name path ih =>
    rw [getPath_cons] at h
    obtain ⟨below, hget, hbelow⟩ := Option.bind_eq_some_iff.mp h
    cases v with
    | obj fields =>
      rw [leaves, mem_memberLeaves]
      exact ⟨(name, below), OrdMap.mem_of_find? hget, (path, value), ih hbelow, rfl⟩
    | _ => simp [get] at hget

theorem find?_of_mem {fields : List (String × Json)} (hnodup : (fields.map Prod.fst).Nodup)
    {member : String × Json} (hmem : member ∈ fields) : OrdMap.find? member.1 fields = some member.2 := by
  induction fields with
  | nil => exact absurd hmem List.not_mem_nil
  | cons head rest ih =>
    rw [List.map_cons, List.nodup_cons] at hnodup
    rw [OrdMap.find?_cons]
    rcases List.mem_cons.mp hmem with rfl | hmem
    · rw [if_pos rfl]
    · rw [if_neg, ih hnodup.2 hmem]
      intro heq
      exact hnodup.1 (heq ▸ List.mem_map_of_mem hmem)

theorem getPath_of_mem_leaves (v : Json) :
    v.UniqueKeys → ∀ leaf ∈ v.leaves, v.getPath leaf.1 = some leaf.2 := by
  induction v using memberInduction with
  | leaf v hv =>
    intro _ leaf hleaf
    rw [leaves_of_not_object hv, List.mem_singleton] at hleaf
    rw [hleaf]
    rfl
  | object fields ih =>
    intro h leaf hleaf
    obtain ⟨hnodup, hbelow⟩ := (uniqueKeys_obj).mp h
    rw [leaves] at hleaf
    obtain ⟨member, hmem, below, hmemBelow, rfl⟩ := mem_memberLeaves.mp hleaf
    rw [getPath_cons, get_obj, find?_of_mem hnodup hmem]
    exact ih member hmem (hbelow member hmem) below hmemBelow

end Emucap.Lib.Json
