import Mathlib.Data.Nat.Notation
import Mathlib.Data.List.Basic

/-!
# Groups in a sequence

A sequence of heads and members is a sequence of groups where every member stands after a head. `endsFilled` goes over
it once, with two flags (some group has begun, and the last one has a member), and accepts the sequences of at least
one group in which none is empty.
-/

namespace Emucap.Lib

variable {α β : Type}

structure Group (α β : Type) where
  head : α
  members : List β

def Group.items (group : Group α β) : List (α ⊕ β) := .inl group.head :: group.members.map .inr

structure IsGrouped (items : List (α ⊕ β)) (groups : List (Group α β)) : Prop where
  nonempty : groups ≠ []
  items : items = groups.flatMap Group.items
  filled : ∀ group ∈ groups, group.members ≠ []

def heads (items : List (α ⊕ β)) : List α := items.filterMap Sum.getLeft?

def members (items : List (α ⊕ β)) : List β := items.filterMap Sum.getRight?

section
variable (a : α) (b : β) (items : List (α ⊕ β))

@[simp] theorem heads_nil : heads ([] : List (α ⊕ β)) = [] := rfl

@[simp] theorem heads_inl : heads (.inl a :: items) = a :: heads items := rfl

@[simp] theorem heads_inr : heads (.inr b :: items) = heads items := rfl

@[simp] theorem members_nil : members ([] : List (α ⊕ β)) = [] := rfl

@[simp] theorem members_inl : members (.inl a :: items) = members items := rfl

@[simp] theorem members_inr : members (.inr b :: items) = b :: members items := rfl

end

theorem heads_append (items more : List (α ⊕ β)) : heads (items ++ more) = heads items ++ heads more :=
  List.filterMap_append

theorem members_append (items more : List (α ⊕ β)) : members (items ++ more) = members items ++ members more :=
  List.filterMap_append

@[simp] theorem heads_map_inr (bs : List β) : heads (bs.map .inr : List (α ⊕ β)) = [] := by
  induction bs with
  | nil => rfl
  | cons b bs ih => simpa using ih

@[simp] theorem members_map_inr (bs : List β) : members (bs.map .inr : List (α ⊕ β)) = bs := by
  induction bs with
  | nil => rfl
  | cons b bs ih => simpa using ih

theorem heads_flatMap (groups : List (Group α β)) : heads (groups.flatMap Group.items) = groups.map Group.head := by
  induction groups with
  | nil => rfl
  | cons group groups ih => simp [Group.items, heads_append, ih]

theorem members_flatMap (groups : List (Group α β)) :
    members (groups.flatMap Group.items) = groups.flatMap Group.members := by
  induction groups with
  | nil => rfl
  | cons group groups ih => simp [Group.items, members_append, ih]

/-- The rest can be gone over: a group begins where the last one is not left empty, a member needs a group, and the end
needs a group with a member. -/
def endsFilled : Bool → Bool → List (α ⊕ β) → Prop
  | begun, filled, [] => begun = true ∧ filled = true
  | begun, filled, .inl _ :: rest => (begun = true → filled = true) ∧ endsFilled true false rest
  | begun, _, .inr _ :: rest => begun = true ∧ endsFilled true true rest

/-- What may follow inside a group: more members of it, of which there is one at least unless it is filled, and
further groups. -/
def RestOfGroup (filled : Bool) (items : List (α ⊕ β)) : Prop :=
  ∃ (members : List β) (groups : List (Group α β)), items = members.map .inr ++ groups.flatMap Group.items ∧
    (filled = true ∨ members ≠ []) ∧ ∀ group ∈ groups, group.members ≠ []

theorem restOfGroup_nil {filled : Bool} : RestOfGroup filled ([] : List (α ⊕ β)) ↔ filled = true := by
  constructor
  · rintro ⟨members, groups, hitems, hfilled, -⟩
    obtain ⟨hmembers, -⟩ := List.append_eq_nil_iff.mp hitems.symm
    rw [List.map_eq_nil_iff] at hmembers
    simpa [hmembers] using hfilled
  · intro h
    exact ⟨[], [], rfl, .inl h, by simp⟩

theorem restOfGroup_member {filled : Bool} {b : β} {rest : List (α ⊕ β)} :
    RestOfGroup filled (.inr b :: rest) ↔ RestOfGroup true rest := by
  constructor
  · rintro ⟨members, groups, hitems, -, hgroups⟩
    cases members with
    | nil =>
      cases groups with
      | nil => simp at hitems
      | cons group groups => simp [Group.items] at hitems
    | cons c members =>
      rw [List.map_cons, List.cons_append, List.cons.injEq] at hitems
      exact ⟨members, groups, hitems.2, .inl rfl, hgroups⟩
  · rintro ⟨members, groups, rfl, -, hgroups⟩
    exact ⟨b :: members, groups, rfl, .inr (by simp), hgroups⟩

theorem restOfGroup_head {filled : Bool} {a : α} {rest : List (α ⊕ β)} :
    RestOfGroup filled (.inl a :: rest) ↔ filled = true ∧ RestOfGroup false rest := by
  constructor
  · rintro ⟨members, groups, hitems, hfilled, hgroups⟩
    cases members with
    | cons c members => simp at hitems
    | nil =>
      cases groups with
      | nil => simp at hitems
      | cons group groups =>
        rw [List.forall_mem_cons] at hgroups
        simp only [List.map_nil, List.nil_append, List.flatMap_cons, Group.items, List.cons_append,
          List.cons.injEq] at hitems
        exact ⟨by simpa using hfilled, group.members, groups, hitems.2, .inr hgroups.1, hgroups.2⟩
  · rintro ⟨hfilled, members, groups, rfl, hmembers, hgroups⟩
    have hnonempty : members ≠ [] := by simpa using hmembers
    exact ⟨[], ⟨a, members⟩ :: groups, by simp [Group.items], .inl hfilled,
      List.forall_mem_cons.mpr ⟨hnonempty, hgroups⟩⟩

theorem endsFilled_begun {filled : Bool} {items : List (α ⊕ β)} :
    endsFilled true filled items ↔ RestOfGroup filled items := by
  induction items generalizing filled with
  | nil => rw [restOfGroup_nil, endsFilled, eq_self, true_and]
  | cons item rest ih =>
    cases item with
    | inl a => rw [restOfGroup_head, ← ih, endsFilled, eq_self, true_imp_iff]
    | inr b => rw [restOfGroup_member, ← ih, endsFilled, eq_self, true_and]

/-- A sequence is gone over to its end just where it is made of groups. -/
theorem endsFilled_iff {filled : Bool} {items : List (α ⊕ β)} :
    endsFilled false filled items ↔ ∃ groups, IsGrouped items groups := by
  cases items with
  | nil =>
    simp only [endsFilled, Bool.false_eq_true, false_and, false_iff]
    rintro ⟨groups, hnonempty, hitems, -⟩
    obtain ⟨group, groups, rfl⟩ := List.exists_cons_of_ne_nil hnonempty
    simp [Group.items] at hitems
  | cons item rest =>
    cases item with
    | inr b =>
      simp only [endsFilled, Bool.false_eq_true, false_and, false_iff]
      rintro ⟨groups, hnonempty, hitems, -⟩
      obtain ⟨group, groups, rfl⟩ := List.exists_cons_of_ne_nil hnonempty
      simp [Group.items] at hitems
    | inl a =>
      rw [endsFilled, endsFilled_begun]
      simp only [Bool.false_eq_true, false_imp_iff, true_and]
      constructor
      · rintro ⟨members, groups, rfl, hmembers, hgroups⟩
        have hfilled : members ≠ [] := by simpa using hmembers
        exact ⟨⟨a, members⟩ :: groups, by simp, by simp [Group.items], List.forall_mem_cons.mpr ⟨hfilled, hgroups⟩⟩
      · rintro ⟨groups, hnonempty, hitems, hgroups⟩
        obtain ⟨group, groups, rfl⟩ := List.exists_cons_of_ne_nil hnonempty
        rw [List.forall_mem_cons] at hgroups
        simp only [List.flatMap_cons, Group.items, List.cons_append, List.cons.injEq] at hitems
        exact ⟨group.members, groups, hitems.2, .inr hgroups.1, hgroups.2⟩

end Emucap.Lib
