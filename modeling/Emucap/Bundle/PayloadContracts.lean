import Emucap.Bundle.Event
import Emucap.Lib.JsonLeaves
import Mathlib.Data.List.Dedup

/-!
# Payload contracts

A contract describes a payload by the dotted paths of its fields. The check says that the leaves are the fields and
that each of them is admitted, except for members that are objects without members.
-/

namespace Emucap

open Emucap.Lib

/-! ## The described payload -/

def PayloadField.names (field : PayloadField) : List String :=
  (field.path.toList.splitOn '.').map String.ofList

/-- The value is one of the field: an unsigned integer within its bounds, or a boolean. -/
def PayloadField.admits (field : PayloadField) (value : Json) : Bool :=
  match field.valueType with
  | .u64 => value.asU64.any fun number => field.lower ≤ number && number ≤ field.upper
  | .bool => value.asBool.isSome

def fieldsBelow (name : String) (fields : List (List String × PayloadField)) :
    List (List String × PayloadField) :=
  fields.filterMap fun field => if field.1.head? = some name then some (field.1.tail, field.2) else none

/-- The value has exactly the members the fields describe, read as a tree of names. -/
inductive Described : List (List String × PayloadField) → Json → Prop
  | leaf {fields : List (List String × PayloadField)} {value : Json} (hne : fields ≠ [])
      (hfields : ∀ field ∈ fields, field.1 = [] ∧ field.2.admits value = true) : Described fields value
  | object {fields : List (List String × PayloadField)} {members : List (String × Json)}
      (hnodup : (members.map Prod.fst).Nodup) (hbelow : ∀ field ∈ fields, field.1 ≠ [])
      (hnames : ∀ name, name ∈ members.map Prod.fst ↔ ∃ field ∈ fields, field.1.head? = some name)
      (hmembers : ∀ member ∈ members, Described (fieldsBelow member.1 fields) member.2) :
      Described fields (.obj members)

namespace EventContract

def namedFields (contract : EventContract) : List (List String × PayloadField) :=
  contract.payloadFields.map fun field => (field.names, field)

def Describes (contract : EventContract) (payload : Json) : Prop := Described contract.namedFields payload

/-- No path of the contract goes on below another one. -/
def PathsApart (contract : EventContract) : Prop :=
  ∀ field ∈ contract.payloadFields, ∀ other ∈ contract.payloadFields, ∀ name rest,
    other.names ≠ field.names ++ name :: rest

def BoundsU64 (contract : EventContract) : Prop :=
  ∀ field ∈ contract.payloadFields, field.lower < 2 ^ 64

end EventContract

/-! ## Paths as text -/

/-- The text of a path, built by `payload_leaf_paths` one name after the other. -/
def pathText (parent : String) (names : List String) : String :=
  names.foldl (fun path name => if path = "" then name else path ++ "." ++ name) parent

theorem pathText_of_ne {parts : List (List Char)} {parent : List Char} (hparent : parent ≠ []) :
    pathText (String.ofList parent) (parts.map String.ofList) =
      String.ofList (parent ++ parts.flatMap ('.' :: ·)) := by
  induction parts generalizing parent with
  | nil => simp [pathText]
  | cons part parts ih =>
    have hne : String.ofList parent ≠ "" := by
      intro h
      have := congrArg String.toList h
      simp [hparent] at this
    have hnext : String.ofList parent ++ "." ++ String.ofList part = String.ofList (parent ++ '.' :: part) := by
      apply String.toList_inj.mp
      simp
    rw [List.map_cons, pathText, List.foldl_cons, if_neg hne, hnext]
    have htext : pathText (String.ofList (parent ++ '.' :: part)) _ = _ := ih (by simp)
    rw [pathText] at htext
    rw [htext]
    simp

theorem intercalate_cons (sep : Char) (part : List Char) (parts : List (List Char)) :
    [sep].intercalate (part :: parts) = part ++ parts.flatMap (sep :: ·) := by
  induction parts generalizing part with
  | nil => simp
  | cons next parts ih =>
    rw [List.intercalate_cons_cons, ih]
    simp

theorem pathText_names {field : PayloadField} (h : (field.path.toList.splitOn '.').all isContractToken = true) :
    pathText "" field.names = field.path := by
  have hpath : List.intercalate ['.'] (field.path.toList.splitOn '.') = _ := List.intercalate_splitOn '.'
  unfold PayloadField.names
  cases hparts : field.path.toList.splitOn '.' with
  | nil => exact absurd hparts (List.splitOn_ne_nil _ _)
  | cons part parts =>
    rw [hparts] at h hpath
    have hne : part ≠ [] := by
      rintro rfl
      simp [isContractToken] at h
    rw [List.map_cons, pathText, List.foldl_cons, if_pos rfl]
    have htext : _ = String.ofList (part ++ parts.flatMap ('.' :: ·)) := pathText_of_ne hne
    rw [pathText] at htext
    rw [htext, ← intercalate_cons, hpath, String.ofList_toList]

namespace Bundle

/-! ## The leaf paths -/

def insertPath (paths : List String) (path : String) : Option (List String) :=
  if path ∈ paths then none else some (path :: paths)

theorem fieldLeafPaths_eq {fields : List (String × Json)} {parent : String}
    (ih : ∀ member ∈ fields, member.2.isObject = true → ∀ parent paths, payloadLeafPaths member.2 parent paths =
      (member.2.leaves.map fun leaf => pathText parent leaf.1).foldlM insertPath paths) :
    ∀ paths, fieldLeafPaths fields parent paths =
      ((Json.memberLeaves fields).map fun leaf => pathText parent leaf.1).foldlM insertPath paths := by
  induction fields with
  | nil =>
    intro paths
    rfl
  | cons member rest ihrest =>
    intro paths
    obtain ⟨name, value⟩ := member
    have hrest := ihrest fun member hmem => ih member (by simp [hmem])
    have hvalue := ih (name, value) (by simp)
    rw [fieldLeafPaths, Json.memberLeaves, List.map_append, List.foldlM_append, List.map_map]
    by_cases hobject : value.isObject = true
    · simp only [if_pos hobject]
      rw [hvalue hobject]
      exact bind_congr hrest
    · rw [Json.leaves_of_not_object (by simpa using hobject)]
      simp only [if_neg hobject, List.map_cons, List.map_nil, List.foldlM_cons, List.foldlM_nil, Function.comp,
        pathText, List.foldl_cons, List.foldl_nil, insertPath]
      generalize (if parent = "" then name else parent ++ "." ++ name) = path
      by_cases hmem : path ∈ paths
      · simp [hmem]
      · simp [hmem, hrest]
        rfl

theorem payloadLeafPaths_eq (value : Json) : value.isObject = true → ∀ parent paths,
    payloadLeafPaths value parent paths =
      (value.leaves.map fun leaf => pathText parent leaf.1).foldlM insertPath paths := by
  induction value using Json.memberInduction with
  | leaf value hvalue =>
    intro hobject
    rw [hvalue] at hobject
    cases hobject
  | object fields ih =>
    intro _ parent paths
    rw [payloadLeafPaths, Json.leaves]
    exact fieldLeafPaths_eq ih paths

theorem foldlM_insertPath {texts paths result : List String} :
    texts.foldlM insertPath paths = some result ↔
      texts.Nodup ∧ (∀ text ∈ texts, text ∉ paths) ∧ result = texts.reverse ++ paths := by
  induction texts generalizing paths with
  | nil => simp [eq_comm]
  | cons text texts ih =>
    rw [List.foldlM_cons, insertPath]
    by_cases hmem : text ∈ paths
    · simp [hmem]
    · rw [if_neg hmem]
      show texts.foldlM insertPath (text :: paths) = some result ↔ _
      rw [ih]
      rw [List.nodup_cons, List.forall_mem_cons, List.reverse_cons, List.append_assoc, List.singleton_append]
      constructor
      · rintro ⟨hnodup, hnew, rfl⟩
        refine ⟨⟨fun h => hnew text h List.mem_cons_self, hnodup⟩, ⟨hmem, fun t ht hin => ?_⟩, rfl⟩
        exact hnew t ht (List.mem_cons_of_mem _ hin)
      · rintro ⟨⟨hfirst, hnodup⟩, ⟨-, hnew⟩, rfl⟩
        refine ⟨hnodup, fun t ht hin => ?_, rfl⟩
        rcases List.mem_cons.mp hin with rfl | hin
        · exact hfirst ht
        · exact hnew t ht hin

theorem payloadValue_eq (payload : Json) (field : PayloadField) :
    payloadValue payload field.path = payload.getPath field.names := by
  rw [payloadValue, Json.getPath, PayloadField.names, List.foldlM_map]

theorem fieldAdmits_iff {payload : Json} {field : PayloadField} :
    fieldAdmits payload field = true ↔ ∃ value, payload.getPath field.names = some value ∧ field.admits value = true := by
  unfold fieldAdmits
  rw [payloadValue_eq]
  cases payload.getPath field.names with
  | none => simp
  | some value =>
    simp only [Option.some.injEq, exists_eq_left']
    rfl

/-! ## Accepted contracts -/

structure ContractChecked (contract : EventContract) : Prop where
  kind : contract.payloadKind = .emptyObject ∧ contract.payloadFields = [] ∨
    contract.payloadKind = .object ∧ contract.payloadFields ≠ []
  names : ∀ field ∈ contract.payloadFields, (field.path.toList.splitOn '.').all isContractToken = true
  bounds : ∀ field ∈ contract.payloadFields, EventContract.boundsValid field = true
  paths : (contract.payloadFields.map PayloadField.path).Nodup

theorem validateFields_eq_ok {id : String} {fields : List PayloadField} {seen : List String} {u : Unit}
    (h : EventContract.validateFields id fields seen = .ok u) :
    (∀ field ∈ fields, (field.path.toList.splitOn '.').all isContractToken = true ∧
      EventContract.boundsValid field = true ∧ field.path ∉ seen) ∧ (fields.map PayloadField.path).Nodup := by
  induction fields generalizing seen with
  | nil => exact ⟨fun field hfield => absurd hfield List.not_mem_nil, List.nodup_nil⟩
  | cons field rest ih =>
    simp only [EventContract.validateFields, require_bind_eq_ok] at h
    obtain ⟨⟨-, hnames, hseen⟩, hbounds, h⟩ := h
    obtain ⟨hrest, hnodup⟩ := ih h
    refine ⟨?_, ?_⟩
    · rw [List.forall_mem_cons]
      refine ⟨⟨hnames, hbounds, hseen⟩, fun other hother => ?_⟩
      obtain ⟨hnames', hbounds', hseen'⟩ := hrest other hother
      exact ⟨hnames', hbounds', fun hin => hseen' (List.mem_cons_of_mem _ hin)⟩
    · rw [List.map_cons, List.nodup_cons]
      refine ⟨fun hin => ?_, hnodup⟩
      obtain ⟨other, hother, heq⟩ := List.mem_map.mp hin
      exact (hrest other hother).2.2 (heq ▸ List.mem_cons_self)

theorem validatePayloadContract_eq_ok {contract : EventContract} (h : contract.validatePayloadContract = .ok ()) :
    ContractChecked contract := by
  simp only [EventContract.validatePayloadContract, require_bind_eq_ok, not_and] at h
  obtain ⟨hempty, hobject, h⟩ := h
  obtain ⟨hfields, hnodup⟩ := validateFields_eq_ok h
  refine ⟨?_, fun field hfield => (hfields field hfield).1, fun field hfield => (hfields field hfield).2.1, hnodup⟩
  cases hkind : contract.payloadKind with
  | emptyObject => exact .inl ⟨rfl, not_not.mp (hempty hkind)⟩
  | object => exact .inr ⟨rfl, hobject hkind⟩

theorem names_ne_nil (field : PayloadField) : field.names ≠ [] := by
  rw [PayloadField.names, ne_eq, List.map_eq_nil_iff]
  exact List.splitOn_ne_nil _ _

theorem not_object_of_admits {field : PayloadField} {value : Json} (h : field.admits value = true) :
    value.isObject = false := by
  cases value with
  | obj members =>
    unfold PayloadField.admits at h
    cases hkind : field.valueType with
    | u64 =>
      rw [hkind] at h
      cases h
    | bool =>
      rw [hkind] at h
      cases h
  | _ => rfl

structure LeavesMatch (fields : List (List String × PayloadField)) (value : Json) : Prop where
  leaf : ∀ leaf ∈ value.leaves, ∃ field ∈ fields, field.1 = leaf.1 ∧ field.2.admits leaf.2 = true
  field : ∀ field ∈ fields, ∃ leaf ∈ value.leaves, leaf.1 = field.1 ∧ field.2.admits leaf.2 = true

theorem validatePayload_object {contract : EventContract} (hchecked : ContractChecked contract)
    (hkind : contract.payloadKind = .object) {payload : Json} (hunique : payload.UniqueKeys) :
    validatePayload contract payload = true ↔
      payload.isObject = true ∧ LeavesMatch contract.namedFields payload := by
  by_cases hobject : payload.isObject = true
  swap
  · have hnone : payloadLeafPaths payload "" [] = none := by
      cases payload with
      | obj members => exact absurd rfl hobject
      | _ => simp [payloadLeafPaths]
    simp [validatePayload, hkind, hnone, hobject]
  have htexts := payloadLeafPaths_eq payload hobject "" []
  have hnamed : ∀ {field : List String × PayloadField}, field ∈ contract.namedFields ↔
      ∃ f ∈ contract.payloadFields, field = (f.names, f) := by
    intro field
    simp [EventContract.namedFields, eq_comm]
  constructor
  · intro h
    refine ⟨hobject, ?_⟩
    unfold validatePayload at h
    rw [hkind] at h
    simp only [htexts] at h
    cases hfold : (payload.leaves.map fun leaf => pathText "" leaf.1).foldlM insertPath [] with
    | none =>
      rw [hfold] at h
      cases h
    | some actual =>
      rw [hfold] at h
      obtain ⟨hnodup, -, rfl⟩ := (foldlM_insertPath).mp hfold
      simp only [Bool.and_eq_true, List.all_eq_true, List.contains_iff_mem, List.append_nil, List.mem_reverse] at h
      obtain ⟨⟨hexpected, -⟩, hadmits⟩ := h
      have hfield : ∀ f ∈ contract.payloadFields, ∃ leaf ∈ payload.leaves, leaf.1 = f.names ∧
          f.admits leaf.2 = true := by
        intro f hf
        obtain ⟨value, hget, hvalue⟩ := (fieldAdmits_iff).mp (hadmits f hf)
        exact ⟨_, Json.mem_leaves_of_getPath hget (not_object_of_admits hvalue), rfl, hvalue⟩
      refine ⟨fun leaf hleaf => ?_, fun field hmem => ?_⟩
      · obtain ⟨f, hf, hpath⟩ := List.mem_map.mp (hexpected _ (List.mem_map_of_mem hleaf))
        obtain ⟨leaf', hleaf', hnames, hvalue⟩ := hfield f hf
        have hsame : pathText "" leaf'.1 = pathText "" leaf.1 := by
          rw [hnames, pathText_names (hchecked.names f hf), hpath]
        obtain rfl := List.inj_on_of_nodup_map hnodup hleaf' hleaf hsame
        exact ⟨(f.names, f), hnamed.mpr ⟨f, hf, rfl⟩, hnames.symm, hvalue⟩
      · obtain ⟨f, hf, rfl⟩ := hnamed.mp hmem
        exact hfield f hf
  · rintro ⟨-, hmatch⟩
    have hleaf : ∀ leaf ∈ payload.leaves, ∃ f ∈ contract.payloadFields, f.names = leaf.1 ∧
        pathText "" leaf.1 = f.path := by
      intro leaf hleaf
      obtain ⟨field, hmem, hnames, -⟩ := hmatch.leaf leaf hleaf
      obtain ⟨f, hf, rfl⟩ := hnamed.mp hmem
      exact ⟨f, hf, hnames, by rw [← hnames, pathText_names (hchecked.names f hf)]⟩
    have hnodup : (payload.leaves.map fun leaf => pathText "" leaf.1).Nodup := by
      have hpaths := Json.leaves_nodup payload hunique
      have hleaves : payload.leaves.Nodup := hpaths.of_map _
      refine hleaves.map_on fun leaf hin leaf' hin' heq => ?_
      obtain ⟨f, hf, hnames, hpath⟩ := hleaf leaf hin
      obtain ⟨f', hf', hnames', hpath'⟩ := hleaf leaf' hin'
      have hff : f.path = f'.path := by rw [← hpath, ← hpath', heq]
      refine List.inj_on_of_nodup_map hpaths hin hin' ?_
      rw [← hnames, ← hnames', PayloadField.names, PayloadField.names, hff]
    have hfold := (foldlM_insertPath).mpr ⟨hnodup, fun text _ => List.not_mem_nil, rfl⟩
    unfold validatePayload
    rw [hkind]
    simp only [htexts, hfold, Bool.and_eq_true, List.all_eq_true, List.contains_iff_mem, List.append_nil,
      List.mem_reverse]
    refine ⟨⟨fun text htext => ?_, fun path hpath => ?_⟩, fun f hf => ?_⟩
    · obtain ⟨leaf, hin, rfl⟩ := List.mem_map.mp htext
      obtain ⟨f, hf, -, hpath⟩ := hleaf leaf hin
      rw [hpath]
      exact List.mem_map_of_mem hf
    · obtain ⟨f, hf, rfl⟩ := List.mem_map.mp hpath
      obtain ⟨leaf, hin, hnames, -⟩ := hmatch.field _ (hnamed.mpr ⟨f, hf, rfl⟩)
      rw [← pathText_names (hchecked.names f hf)]
      exact List.mem_map.mpr ⟨leaf, hin, by rw [hnames]⟩
    · obtain ⟨leaf, hin, hnames, hvalue⟩ := hmatch.field _ (hnamed.mpr ⟨f, hf, rfl⟩)
      have hget := Json.getPath_of_mem_leaves payload hunique leaf hin
      rw [hnames] at hget
      exact (fieldAdmits_iff).mpr ⟨leaf.2, hget, hvalue⟩

/-! ## Leaves and members -/

theorem mem_fieldsBelow {name : String} {fields : List (List String × PayloadField)}
    {field : List String × PayloadField} :
    field ∈ fieldsBelow name fields ↔ (name :: field.1, field.2) ∈ fields := by
  unfold fieldsBelow
  rw [List.mem_filterMap]
  constructor
  · rintro ⟨⟨names, f⟩, hmem, heq⟩
    cases names with
    | nil => simp at heq
    | cons head tail =>
      by_cases hhead : head = name
      · subst hhead
        simp only [List.head?_cons, if_pos, List.tail_cons, Option.some.injEq] at heq
        rw [← heq]
        exact hmem
      · simp [hhead] at heq
  · intro hmem
    exact ⟨_, hmem, by simp⟩

theorem Described.leaves_match {fields : List (List String × PayloadField)} {value : Json}
    (h : Described fields value) : LeavesMatch fields value := by
  induction h with
  | @leaf fields value hne hfields =>
    obtain ⟨field, hmem⟩ := List.exists_mem_of_ne_nil _ hne
    have hvalue := not_object_of_admits (hfields field hmem).2
    refine ⟨fun leaf hleaf => ?_, fun field hmem => ?_⟩
    · rw [Json.leaves_of_not_object hvalue, List.mem_singleton] at hleaf
      rw [hleaf]
      exact ⟨field, hmem, hfields field hmem⟩
    · rw [Json.leaves_of_not_object hvalue]
      exact ⟨_, List.mem_singleton_self _, (hfields field hmem).1.symm, (hfields field hmem).2⟩
  | @object fields members hnodup hbelow hnames hmembers ih =>
    refine ⟨fun leaf hleaf => ?_, fun field hmem => ?_⟩
    · rw [Json.leaves] at hleaf
      obtain ⟨member, hmember, below, hbelowMem, rfl⟩ := Json.mem_memberLeaves.mp hleaf
      obtain ⟨field, hmem, hpath, hvalue⟩ := (ih member hmember).leaf below hbelowMem
      exact ⟨_, (mem_fieldsBelow).mp hmem, by rw [hpath], hvalue⟩
    · obtain ⟨names, f⟩ := field
      cases names with
      | nil => exact absurd rfl (hbelow _ hmem)
      | cons name rest =>
        obtain ⟨member, hmember, rfl⟩ := List.mem_map.mp ((hnames name).mpr ⟨_, hmem, rfl⟩)
        obtain ⟨leaf, hleaf, hpath, hvalue⟩ := (ih member hmember).field (rest, f) ((mem_fieldsBelow).mpr hmem)
        refine ⟨(member.1 :: leaf.1, leaf.2), ?_, by rw [hpath], hvalue⟩
        rw [Json.leaves]
        exact Json.mem_memberLeaves.mpr ⟨member, hmember, leaf, hleaf, rfl⟩

theorem Described.full {fields : List (List String × PayloadField)} {value : Json} (h : Described fields value) :
    fields ≠ [] → value.isFull = true := by
  induction h with
  | leaf hne hfields =>
    intro _
    obtain ⟨field, hmem⟩ := List.exists_mem_of_ne_nil _ hne
    exact Json.isFull_of_not_object (not_object_of_admits (hfields field hmem).2)
  | @object fields members hnodup hbelow hnames hmembers ih =>
    intro hne
    obtain ⟨⟨names, f⟩, hmem⟩ := List.exists_mem_of_ne_nil _ hne
    rw [Json.isFull, Bool.and_eq_true, Json.membersFull_iff]
    constructor
    · cases names with
      | nil => exact absurd rfl (hbelow _ hmem)
      | cons name rest =>
        have hin := (hnames name).mpr ⟨_, hmem, rfl⟩
        cases members with
        | nil => simp at hin
        | cons member members => rfl
    · intro member hmember
      obtain ⟨⟨path, f'⟩, hmem', hhead⟩ := (hnames member.1).mp (List.mem_map_of_mem hmember)
      cases path with
      | nil => cases hhead
      | cons head tail =>
        obtain rfl : head = member.1 := Option.some.inj hhead
        have hbelowMem : (tail, f') ∈ fieldsBelow member.1 fields := (mem_fieldsBelow).mpr hmem'
        exact ih member hmember (List.ne_nil_of_mem hbelowMem)

theorem LeavesMatch.described (value : Json) : ∀ {fields : List (List String × PayloadField)}, fields ≠ [] →
    value.UniqueKeys → value.isFull = true → LeavesMatch fields value → Described fields value := by
  induction value using Json.memberInduction with
  | leaf value hvalue =>
    intro fields hne _ _ h
    refine .leaf hne fun field hmem => ?_
    obtain ⟨leaf, hleaf, hpath, hadmits⟩ := h.field field hmem
    rw [Json.leaves_of_not_object hvalue, List.mem_singleton] at hleaf
    rw [hleaf] at hpath hadmits
    exact ⟨hpath.symm, hadmits⟩
  | object members ih =>
    intro fields hne hunique hfull h
    obtain ⟨hnodup, hbelow⟩ := Json.uniqueKeys_obj.mp hunique
    rw [Json.isFull, Bool.and_eq_true, Json.membersFull_iff] at hfull
    have hfield : ∀ {names : List String} {f : PayloadField}, (names, f) ∈ fields → ∃ member ∈ members,
        ∃ leaf ∈ member.2.leaves, names = member.1 :: leaf.1 ∧ f.admits leaf.2 = true := by
      intro names f hmem
      obtain ⟨leaf, hleaf, hpath, hadmits⟩ := h.field _ hmem
      rw [Json.leaves] at hleaf
      obtain ⟨member, hmember, below, hbelowMem, rfl⟩ := Json.mem_memberLeaves.mp hleaf
      exact ⟨member, hmember, below, hbelowMem, hpath.symm, hadmits⟩
    have hleaf : ∀ member ∈ members, ∀ leaf ∈ member.2.leaves, ∃ f, (member.1 :: leaf.1, f) ∈ fields ∧
        f.admits leaf.2 = true := by
      intro member hmember leaf hleaf
      have hin : (member.1 :: leaf.1, leaf.2) ∈ (Json.obj members).leaves := by
        rw [Json.leaves]
        exact Json.mem_memberLeaves.mpr ⟨member, hmember, leaf, hleaf, rfl⟩
      obtain ⟨⟨names, f⟩, hmem, hpath, hadmits⟩ := h.leaf _ hin
      obtain rfl : names = member.1 :: leaf.1 := hpath
      exact ⟨f, hmem, hadmits⟩
    refine .object hnodup (fun field hmem hnil => ?_) (fun name => ?_) fun member hmember => ?_
    · obtain ⟨member, -, leaf, -, hnames, -⟩ := hfield hmem
      rw [hnil] at hnames
      cases hnames
    · constructor
      · intro hname
        obtain ⟨member, hmember, rfl⟩ := List.mem_map.mp hname
        obtain ⟨leaf, hin⟩ := List.exists_mem_of_ne_nil _ (Json.leaves_ne_nil _ (hfull.2 member hmember))
        obtain ⟨f, hmem, -⟩ := hleaf member hmember leaf hin
        exact ⟨_, hmem, rfl⟩
      · rintro ⟨⟨names, f⟩, hmem, hhead⟩
        obtain ⟨member, hmember, leaf, -, rfl, -⟩ := hfield hmem
        obtain rfl := Option.some.inj hhead
        exact List.mem_map_of_mem hmember
    · have hmatch : LeavesMatch (fieldsBelow member.1 fields) member.2 := by
        refine ⟨fun leaf hin => ?_, fun field hmem => ?_⟩
        · obtain ⟨f, hmem, hadmits⟩ := hleaf member hmember leaf hin
          exact ⟨(leaf.1, f), (mem_fieldsBelow).mpr hmem, rfl, hadmits⟩
        · obtain ⟨member', hmember', leaf, hin, hnames, hadmits⟩ := hfield ((mem_fieldsBelow).mp hmem)
          obtain ⟨hname, hrest⟩ := List.cons.inj hnames
          obtain rfl := List.inj_on_of_nodup_map hnodup hmember hmember' hname
          exact ⟨leaf, hin, hrest.symm, hadmits⟩
      obtain ⟨leaf, hin⟩ := List.exists_mem_of_ne_nil _ (Json.leaves_ne_nil _ (hfull.2 member hmember))
      obtain ⟨f, hmem, -⟩ := hleaf member hmember leaf hin
      have hbelowMem : (leaf.1, f) ∈ fieldsBelow member.1 fields := (mem_fieldsBelow).mpr hmem
      exact ih member hmember (List.ne_nil_of_mem hbelowMem) (hbelow member hmember) (hfull.2 member hmember) hmatch

/-! ## Accepted payloads -/

theorem LeavesMatch.prune {fields : List (List String × PayloadField)} {value : Json} :
    LeavesMatch fields value.prune ↔ LeavesMatch fields value := by
  constructor
  · rintro ⟨hleaf, hfield⟩
    rw [Json.leaves_prune] at hleaf hfield
    exact ⟨hleaf, hfield⟩
  · rintro ⟨hleaf, hfield⟩
    rw [← Json.leaves_prune] at hleaf hfield
    exact ⟨hleaf, hfield⟩

theorem validatePayload_iff {contract : EventContract} (hchecked : ContractChecked contract)
    (hkind : contract.payloadKind = .object) {payload : Json} (hunique : payload.UniqueKeys) :
    validatePayload contract payload = true ↔ contract.Describes payload.prune := by
  rw [validatePayload_object hchecked hkind hunique]
  have hne : contract.namedFields ≠ [] := by
    rcases hchecked.kind with ⟨hempty, -⟩ | ⟨-, hfields⟩
    · rw [hkind] at hempty
      cases hempty
    · simpa [EventContract.namedFields] using hfields
  constructor
  · rintro ⟨-, hmatch⟩
    have hmatch' := (LeavesMatch.prune).mpr hmatch
    refine hmatch'.described _ hne (Json.prune_uniqueKeys _ hunique) ?_
    refine (Json.prune_full payload).resolve_left fun hempty => ?_
    obtain ⟨field, hmem⟩ := List.exists_mem_of_ne_nil _ hne
    obtain ⟨leaf, hleaf, -⟩ := hmatch'.field field hmem
    rw [hempty] at hleaf
    simp [Json.leaves, Json.memberLeaves] at hleaf
  · intro hdescribed
    refine ⟨?_, (LeavesMatch.prune).mp (Described.leaves_match hdescribed)⟩
    cases payload with
    | obj members => rfl
    | _ =>
      rw [Json.prune_of_not_object rfl] at hdescribed
      cases hdescribed with
      | leaf _ hfields =>
        obtain ⟨field, hmem⟩ := List.exists_mem_of_ne_nil _ hne
        obtain ⟨f, -, rfl⟩ := List.mem_map.mp hmem
        exact absurd (hfields _ hmem).1 (names_ne_nil f)

/-! ## Payloads of a contract -/

theorem exists_admitted {field : PayloadField} (hbounds : EventContract.boundsValid field = true)
    (hu64 : field.lower < 2 ^ 64) : ∃ value, field.admits value = true := by
  unfold EventContract.boundsValid at hbounds
  cases htype : field.valueType with
  | u64 =>
    rw [htype] at hbounds
    refine ⟨.nat field.lower, ?_⟩
    simp only [PayloadField.admits, htype, Json.asU64_nat hu64, Option.any_some, Bool.and_eq_true, decide_eq_true_eq]
    exact ⟨Nat.le_refl _, of_decide_eq_true hbounds⟩
  | bool => exact ⟨.bool true, by simp [PayloadField.admits, htype, Json.asBool]⟩

theorem head_cons_tail {path : List String} {name : String} (h : path.head? = some name) :
    name :: path.tail = path := by
  cases path with
  | nil => cases h
  | cons head tail =>
    obtain rfl := Option.some.inj h
    rfl

theorem fieldsBelow_nodup {name : String} {fields : List (List String × PayloadField)}
    (h : (fields.map Prod.fst).Nodup) : ((fieldsBelow name fields).map Prod.fst).Nodup := by
  have hsub : ((fieldsBelow name fields).map fun field => name :: field.1).Sublist (fields.map Prod.fst) := by
    clear h
    induction fields with
    | nil => exact List.Sublist.refl _
    | cons field rest ih =>
      obtain ⟨names, f⟩ := field
      unfold fieldsBelow at ih ⊢
      by_cases hhead : names.head? = some name
      · rw [List.filterMap_cons_some (b := (names.tail, f)) (by simp [hhead]), List.map_cons, List.map_cons,
          head_cons_tail hhead]
        exact ih.cons_cons _
      · rw [List.filterMap_cons_none (by simp [hhead]), List.map_cons]
        exact ih.cons _
  have hcomp : (fieldsBelow name fields).map (fun field => name :: field.1) =
      ((fieldsBelow name fields).map Prod.fst).map (name :: ·) := by
    rw [List.map_map]
    rfl
  exact (hcomp ▸ hsub.nodup h).of_map _

/-- Fields of which none goes on below another describe a value. The members of the value are found by induction
on the length of the longest path. -/
theorem exists_described (n : ℕ) : ∀ fields : List (List String × PayloadField), fields ≠ [] →
    (∀ field ∈ fields, field.1.length ≤ n) → (fields.map Prod.fst).Nodup →
    (∀ field ∈ fields, ∀ other ∈ fields, ∀ name rest, other.1 ≠ field.1 ++ name :: rest) →
    (∀ field ∈ fields, ∃ value, field.2.admits value = true) →
    ∃ value : Json, value.UniqueKeys ∧ Described fields value := by
  induction n with
  | zero =>
    intro fields hne hlength hnodup _ hadmits
    obtain ⟨field, hmem⟩ := List.exists_mem_of_ne_nil _ hne
    obtain ⟨value, hvalue⟩ := hadmits field hmem
    refine ⟨value, Json.uniqueKeys_of_not_object (not_object_of_admits hvalue), .leaf hne fun other hother => ?_⟩
    have hnil : ∀ f ∈ fields, f.1 = [] := fun f hf => List.eq_nil_of_length_eq_zero (Nat.le_zero.mp (hlength f hf))
    obtain rfl := List.inj_on_of_nodup_map hnodup hmem hother (by rw [hnil _ hmem, hnil _ hother])
    exact ⟨hnil _ hmem, hvalue⟩
  | succ n ih =>
    intro fields hne hlength hnodup hapart hadmits
    by_cases hempty : ∃ field ∈ fields, field.1 = []
    · obtain ⟨field, hmem, hnil⟩ := hempty
      obtain ⟨value, hvalue⟩ := hadmits field hmem
      refine ⟨value, Json.uniqueKeys_of_not_object (not_object_of_admits hvalue), .leaf hne fun other hother => ?_⟩
      have hother' : other.1 = [] := by
        cases hpath : other.1 with
        | nil => rfl
        | cons name rest => exact absurd (by rw [hpath, hnil]; rfl) (hapart field hmem other hother name rest)
      obtain rfl := List.inj_on_of_nodup_map hnodup hmem hother (by rw [hnil, hother'])
      exact ⟨hnil, hvalue⟩
    · have hpaths : ∀ field ∈ fields, field.1 ≠ [] := fun field hmem hnil => hempty ⟨field, hmem, hnil⟩
      have hbelow : ∀ name, (∃ field ∈ fields, field.1.head? = some name) →
          ∃ value : Json, value.UniqueKeys ∧ Described (fieldsBelow name fields) value := by
        rintro name ⟨⟨path, f⟩, hmem, hhead⟩
        refine ih _ ?_ (fun field hfield => ?_) ?_ (fun field hfield other hother name' rest heq => ?_)
          fun field hfield => hadmits (name :: field.1, field.2) ((mem_fieldsBelow).mp hfield)
        · have hin : (path.tail, f) ∈ fieldsBelow name fields := by
            rw [mem_fieldsBelow, head_cons_tail hhead]
            exact hmem
          exact List.ne_nil_of_mem hin
        · have hle := hlength _ ((mem_fieldsBelow).mp hfield)
          simp only [List.length_cons] at hle
          omega
        · exact fieldsBelow_nodup hnodup
        · exact hapart _ ((mem_fieldsBelow).mp hfield) _ ((mem_fieldsBelow).mp hother) name' rest (by rw [heq]; rfl)
      choose! value hvalue using hbelow
      have hnames : ∀ name, name ∈ (fields.filterMap fun field => field.1.head?).dedup ↔
          ∃ field ∈ fields, field.1.head? = some name := by
        intro name
        rw [List.mem_dedup, List.mem_filterMap]
      refine ⟨.obj ((fields.filterMap fun field => field.1.head?).dedup.map fun name => (name, value name)), ?_, ?_⟩
      · rw [Json.uniqueKeys_obj, List.map_map]
        refine ⟨by simp [Function.comp_def, List.nodup_dedup], fun member hmem => ?_⟩
        obtain ⟨name, hname, rfl⟩ := List.mem_map.mp hmem
        exact (hvalue name ((hnames name).mp hname)).1
      · refine .object ?_ hpaths (fun name => ?_) fun member hmem => ?_
        · rw [List.map_map]
          simp [Function.comp_def, List.nodup_dedup]
        · rw [List.map_map]
          simp [Function.comp_def]
        · obtain ⟨name, hname, rfl⟩ := List.mem_map.mp hmem
          exact (hvalue name ((hnames name).mp hname)).2

theorem exists_length_le (fields : List (List String × PayloadField)) :
    ∃ n, ∀ field ∈ fields, field.1.length ≤ n := by
  induction fields with
  | nil => exact ⟨0, fun field hmem => absurd hmem List.not_mem_nil⟩
  | cons field fields ih =>
    obtain ⟨n, hn⟩ := ih
    refine ⟨max field.1.length n, fun other hmem => ?_⟩
    rcases List.mem_cons.mp hmem with rfl | hmem
    · exact Nat.le_max_left _ _
    · exact (hn other hmem).trans (Nat.le_max_right _ _)

theorem satisfiable_iff {contract : EventContract} (hchecked : ContractChecked contract) (hu64 : contract.BoundsU64) :
    (∃ payload : Json, payload.UniqueKeys ∧ validatePayload contract payload = true) ↔ contract.PathsApart := by
  rcases hchecked.kind with ⟨hkind, hfields⟩ | ⟨hkind, hfields⟩
  · constructor
    · intro _ field hmem
      rw [hfields] at hmem
      exact absurd hmem List.not_mem_nil
    · intro _
      refine ⟨.obj [], by rw [Json.uniqueKeys_obj]; simp, ?_⟩
      rw [validatePayload, hkind]
      rfl
  constructor
  · rintro ⟨payload, hunique, haccepted⟩ field hmem other hother name rest hbelow
    obtain ⟨-, hmatch⟩ := (validatePayload_object hchecked hkind hunique).mp haccepted
    obtain ⟨leaf, hleaf, hpath, hadmits⟩ := hmatch.field _ (List.mem_map_of_mem hmem)
    obtain ⟨leaf', hleaf', hpath', -⟩ := hmatch.field _ (List.mem_map_of_mem hother)
    have hget := Json.getPath_of_mem_leaves payload hunique leaf hleaf
    have hget' := Json.getPath_of_mem_leaves payload hunique leaf' hleaf'
    simp only at hpath hpath' hadmits
    rw [hpath', hbelow, Json.getPath_append, ← hpath, hget, Option.bind_some,
      Json.getPath_of_not_object (not_object_of_admits hadmits) (List.cons_ne_nil _ _)] at hget'
    cases hget'
  · intro hapart
    have hne : contract.namedFields ≠ [] := by simpa [EventContract.namedFields] using hfields
    have hnamed : ∀ {field : List String × PayloadField}, field ∈ contract.namedFields →
        ∃ f ∈ contract.payloadFields, field = (f.names, f) := by
      intro field hmem
      obtain ⟨f, hf, rfl⟩ := List.mem_map.mp hmem
      exact ⟨f, hf, rfl⟩
    obtain ⟨n, hn⟩ := exists_length_le contract.namedFields
    have hnodup : (contract.namedFields.map Prod.fst).Nodup := by
      rw [EventContract.namedFields, List.map_map]
      refine hchecked.paths.of_map _ |>.map_on fun f hf g hg heq => ?_
      have hpath : f.path = g.path := by
        rw [← pathText_names (hchecked.names f hf), ← pathText_names (hchecked.names g hg)]
        exact congrArg (pathText "") heq
      exact List.inj_on_of_nodup_map hchecked.paths hf hg hpath
    obtain ⟨payload, hunique, hdescribed⟩ := exists_described n contract.namedFields hne hn hnodup
      (fun field hmem other hother name rest => by
        obtain ⟨f, hf, rfl⟩ := hnamed hmem
        obtain ⟨g, hg, rfl⟩ := hnamed hother
        exact hapart f hf g hg name rest)
      (fun field hmem => by
        obtain ⟨f, hf, rfl⟩ := hnamed hmem
        exact exists_admitted (hchecked.bounds f hf) (hu64 f hf))
    refine ⟨payload, hunique, ?_⟩
    rw [validatePayload_iff hchecked hkind hunique, Json.prune_eq payload
      (Json.noEmptyMembers_of_isFull (Described.full hdescribed hne))]
    exact hdescribed

theorem described_nil_iff {value : Json} : Described [] value ↔ value = .obj [] := by
  constructor
  · intro h
    cases h with
    | leaf hne _ => exact absurd rfl hne
    | @object _ members _ _ hnames _ =>
      cases members with
      | nil => rfl
      | cons member members =>
        obtain ⟨field, hmem, -⟩ := (hnames member.1).mp (by simp)
        exact absurd hmem List.not_mem_nil
  · rintro rfl
    exact .object List.nodup_nil (fun field hmem => absurd hmem List.not_mem_nil) (by simp) (by simp)

/-- A payload is accepted exactly where it is described, if and only if it has no members without leaves, or
would not be accepted without them either; and some payload is accepted if and only if no path of the contract
goes on below another. -/
theorem payload_contract_iff {contract : EventContract} (haccepted : contract.validatePayloadContract = .ok ())
    (hu64 : contract.BoundsU64) :
    (∀ payload : Json, payload.UniqueKeys →
      ((validatePayload contract payload = true ↔ contract.Describes payload) ↔
        contract.payloadKind = .emptyObject ∨ payload.noEmptyMembers = true ∨ ¬ contract.Describes payload.prune)) ∧
    ((∃ payload : Json, payload.UniqueKeys ∧ validatePayload contract payload = true) ↔ contract.PathsApart) := by
  have hchecked := validatePayloadContract_eq_ok haccepted
  refine ⟨fun payload hunique => ?_, satisfiable_iff hchecked hu64⟩
  rcases hchecked.kind with ⟨hkind, hfields⟩ | ⟨hkind, hfields⟩
  · refine iff_of_true ?_ (.inl hkind)
    have hnone : contract.namedFields = [] := by rw [EventContract.namedFields, hfields, List.map_nil]
    rw [validatePayload, hkind, EventContract.Describes, hnone, described_nil_iff]
    cases payload with
    | obj members => simp [Json.asObject]
    | _ => simp [Json.asObject]
  · rw [validatePayload_iff hchecked hkind hunique]
    have hne : contract.namedFields ≠ [] := by simpa [EventContract.namedFields] using hfields
    have hfull : contract.Describes payload → payload.noEmptyMembers = true := fun hdescribed =>
      Json.noEmptyMembers_of_isFull (Described.full hdescribed hne)
    constructor
    · intro hiff
      by_cases hpruned : contract.Describes payload.prune
      · exact .inr (.inl (hfull (hiff.mp hpruned)))
      · exact .inr (.inr hpruned)
    · rintro (hempty | hnoEmpty | hpruned)
      · rw [hkind] at hempty
        cases hempty
      · rw [Json.prune_eq payload hnoEmpty]
      · refine ⟨fun h => absurd h hpruned, fun hdescribed => absurd ?_ hpruned⟩
        rw [Json.prune_eq payload (hfull hdescribed)]
        exact hdescribed

/-! ## A member that goes unnoticed, and a contract without payloads -/

/-- The contract of `snes_transfer_access`. -/
def transferAccessContract : EventContract where
  id := "snes_transfer_access"
  revision := 1
  contract := "snes_transfer_access/v1;clock=snes_master:nondecreasing;frame=independent;coverage=manual-dma-and-hdma-byte-bus-access;payload=bus_address:u24,value:u8,operation:u8,channel:u3,hdma:bool"
  contractSha256 := "735c6cdf3c8cbddde4b754dc6eea6700888bb03e9cd3c77eda750c5f8a372e60"
  clockDomain := "snes_master"
  clockOrder := .nondecreasing
  frameRelation := .independent
  payloadKind := .object
  payloadFields := [⟨"bus_address", .u64, some 0, some 16777215⟩,
    ⟨"value", .u64, some 0, some 255⟩,
    ⟨"operation", .u64, some 0, some 9⟩,
    ⟨"channel", .u64, some 0, some 7⟩,
    ⟨"hdma", .bool, none, none⟩]

theorem transferAccess_accepted : transferAccessContract.validatePayloadContract = .ok () := by decide

theorem transferAccess_boundsU64 : transferAccessContract.BoundsU64 := by
  unfold EventContract.BoundsU64
  decide

def strayPayload : Json :=
  .obj [("bus_address", .nat 4096), ("channel", .nat 1), ("extra", .obj []), ("hdma", .bool false),
    ("operation", .nat 2), ("value", .nat 7)]

theorem strayPayload_unique : strayPayload.UniqueKeys := by
  simp [strayPayload, Json.uniqueKeys_obj, Json.UniqueKeys, Json.MembersUnique]

def nestedContract : EventContract :=
  { transferAccessContract with payloadFields := [⟨"a", .u64, none, none⟩, ⟨"a.b", .u64, none, none⟩] }

theorem payload_contracts_fail :
    (¬ ∀ contract : EventContract, contract.validatePayloadContract = .ok () → contract.BoundsU64 →
      ∀ payload : Json, payload.UniqueKeys →
        (validatePayload contract payload = true ↔ contract.Describes payload)) ∧
    ¬ ∀ contract : EventContract, contract.validatePayloadContract = .ok () → contract.BoundsU64 →
      ∃ payload : Json, payload.UniqueKeys ∧ validatePayload contract payload = true := by
  constructor
  · intro h
    have hdescribed := (h transferAccessContract transferAccess_accepted transferAccess_boundsU64 strayPayload
      strayPayload_unique).mp (by decide +kernel)
    have hfull := Described.full hdescribed (by simp [EventContract.namedFields, transferAccessContract])
    revert hfull
    decide
  · intro h
    have haccepted : nestedContract.validatePayloadContract = .ok () := by decide
    have hu64 : nestedContract.BoundsU64 := by
      unfold EventContract.BoundsU64
      decide
    have hapart := (satisfiable_iff (validatePayloadContract_eq_ok haccepted) hu64).mp (h nestedContract haccepted hu64)
    exact hapart ⟨"a", .u64, none, none⟩ (by decide) ⟨"a.b", .u64, none, none⟩ (by decide) "b" [] (by decide +kernel)

theorem payload_contract_iff_transferAccess :
    ((validatePayload transferAccessContract strayPayload = true ↔ transferAccessContract.Describes strayPayload) ↔
      transferAccessContract.payloadKind = .emptyObject ∨ strayPayload.noEmptyMembers = true ∨
        ¬ transferAccessContract.Describes strayPayload.prune) ∧
    ((∃ payload : Json, payload.UniqueKeys ∧ validatePayload transferAccessContract payload = true) ↔
      transferAccessContract.PathsApart) := by
  obtain ⟨haccepts, hsatisfiable⟩ := payload_contract_iff transferAccess_accepted transferAccess_boundsU64
  exact ⟨haccepts strayPayload strayPayload_unique, hsatisfiable⟩

end Bundle

end Emucap
