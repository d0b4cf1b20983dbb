import Mathlib.Data.List.Basic
import Mathlib.Order.Basic

/-!
# Bracketed streams

A stream is bracketed when it is a sequence of blocks, each opened and closed with a tag and filled with items of that
tag, the tags increasing. What `Step` reads is a header of such a stream (`Step.blocks`).
-/

namespace Emucap.Lib

/-! ## Labelled runs -/

inductive Trace {S L : Type*} (step : S → L → S → Prop) : S → List L → S → Prop
  | nil (s : S) : Trace step s [] s
  | cons {s t u : S} {l : L} {ls : List L} : step s l t → Trace step t ls u → Trace step s (l :: ls) u

namespace Trace

variable {S L : Type*} {step : S → L → S → Prop} {s t u : S} {l : L} {ls ms : List L}

theorem append (h : Trace step s ls t) (h' : Trace step t ms u) : Trace step s (ls ++ ms) u := by
  induction h with
  | nil => exact h'
  | cons hstep _ ih => exact cons hstep (ih h')

theorem snoc (h : Trace step s ls t) (hstep : step t l u) : Trace step s (ls ++ [l]) u :=
  h.append (cons hstep (nil u))

theorem split (h : Trace step s (ls ++ ms) u) : ∃ t, Trace step s ls t ∧ Trace step t ms u := by
  induction ls generalizing s with
  | nil => exact ⟨s, nil s, h⟩
  | cons l ls ih =>
    cases h with
    | cons hstep hrest =>
      obtain ⟨t, hfirst, hlast⟩ := ih hrest
      exact ⟨t, cons hstep hfirst, hlast⟩

theorem imp {step' : S → L → S → Prop} (himp : ∀ {s l t}, step s l t → step' s l t)
    (h : Trace step s ls t) : Trace step' s ls t := by
  induction h with
  | nil s => exact nil s
  | cons hstep _ ih => exact cons (himp hstep) ih

end Trace

/-! ## Brackets -/

namespace Bracket

/-- How a stream is bracketed: what opens and closes a block, and what may stand in it. -/
structure Brackets (σ β : Type*) where
  opening : σ → β → Prop
  closing : σ → β → Prop
  inside : σ → β → Prop

structure State (σ : Type*) where
  last : σ
  current : Option σ

variable {σ β : Type*}

inductive Step [LT σ] (x : Brackets σ β) : State σ → β → State σ → Prop
  | opening {n s : σ} {b : β} : n < s → x.opening s b → Step x ⟨n, none⟩ b ⟨s, some s⟩
  | inside {n s : σ} {b : β} : x.inside s b → Step x ⟨n, some s⟩ b ⟨n, some s⟩
  | closing {n s : σ} {b : β} : x.closing s b → Step x ⟨n, some s⟩ b ⟨n, none⟩

theorem Step.last_le [Preorder σ] {x : Brackets σ β} {s t : State σ} {b : β} (h : Step x s b t) :
    s.last ≤ t.last := by
  cases h with
  | opening hlt _ => exact hlt.le
  | inside _ => exact le_refl _
  | closing _ => exact le_refl _

theorem last_le [Preorder σ] {x : Brackets σ β} {s t : State σ} {items : List β}
    (h : Trace (Step x) s items t) : s.last ≤ t.last := by
  induction h with
  | nil => exact le_refl _
  | cons hstep _ ih => exact hstep.last_le.trans ih

/-- An open block has the greatest tag so far, and a tag above `n`. -/
def State.Above [LT σ] (n : σ) (st : State σ) : Prop :=
  ∀ s, st.current = some s → st.last = s ∧ n < s

theorem above [Preorder σ] {x : Brackets σ β} {n : σ} {items : List β} {st t : State σ}
    (h : Trace (Step x) st items t) (hle : n ≤ st.last) (hst : st.Above n) : t.Above n := by
  induction h with
  | nil st => exact hst
  | cons hstep _ ih =>
    refine ih (hle.trans hstep.last_le) ?_
    cases hstep with
    | opening hlt _ =>
      intro s hs
      obtain rfl := Option.some.inj hs
      exact ⟨rfl, hle.trans_lt hlt⟩
    | inside _ => exact hst
    | closing _ => exact fun _ hs => (nomatch hs)

theorem of_current [LT σ] {x : Brackets σ β} {n n' s : σ} {items : List β}
    (h : Trace (Step x) ⟨n, none⟩ items ⟨n', some s⟩) :
    ∃ before first body, items = before ++ first :: body ∧ x.opening s first ∧
      ∀ i ∈ body, x.inside s i := by
  suffices hgen : ∀ {st : State σ} {items}, Trace (Step x) st items ⟨n', some s⟩ →
      (∃ before first body, items = before ++ first :: body ∧ x.opening s first ∧
        ∀ i ∈ body, x.inside s i) ∨ (st.current = some s ∧ ∀ i ∈ items, x.inside s i) by
    rcases hgen h with hdone | ⟨hcur, -⟩
    · exact hdone
    · cases hcur
  intro st items h
  generalize hend : (⟨n', some s⟩ : State σ) = last at h
  induction h with
  | nil st =>
    subst hend
    exact Or.inr ⟨rfl, fun _ hi => (nomatch hi)⟩
  | @cons st mid last item rest hstep _ ih =>
    rcases ih hend with ⟨before, first, body, rfl, hopen, hbody⟩ | ⟨hcur, hbody⟩
    · exact Or.inl ⟨item :: before, first, body, rfl, hopen, hbody⟩
    · cases hstep with
      | opening _ hopen =>
        obtain rfl := Option.some.inj hcur
        exact Or.inl ⟨[], item, rest, rfl, hopen, hbody⟩
      | inside hin =>
        obtain rfl := Option.some.inj hcur
        refine Or.inr ⟨rfl, fun i hi => ?_⟩
        rcases List.mem_cons.mp hi with rfl | hi
        · exact hin
        · exact hbody i hi
      | closing _ => cases hcur

structure Block (σ β : Type*) where
  tag : σ
  first : β
  body : List β
  last : β

def Block.items (b : Block σ β) : List β := b.first :: b.body ++ [b.last]

structure Block.Ok (x : Brackets σ β) (b : Block σ β) : Prop where
  opening : x.opening b.tag b.first
  inside : ∀ i ∈ b.body, x.inside b.tag i
  closing : x.closing b.tag b.last

/-- Blocks with increasing tags, all above `n`. -/
def Blocks [LT σ] (x : Brackets σ β) (n : σ) (blocks : List (Block σ β)) : Prop :=
  (∀ b ∈ blocks, b.Ok x ∧ n < b.tag) ∧ blocks.Pairwise fun b c => b.tag < c.tag

theorem Blocks.nil [LT σ] (x : Brackets σ β) (n : σ) : Blocks x n [] :=
  ⟨fun _ h => (nomatch h), List.Pairwise.nil⟩

theorem Blocks.cons [Preorder σ] {x : Brackets σ β} {n : σ} {b : Block σ β} {blocks : List (Block σ β)}
    (hb : b.Ok x) (hn : n < b.tag) (h : Blocks x b.tag blocks) : Blocks x n (b :: blocks) := by
  refine ⟨?_, List.pairwise_cons.mpr ⟨fun c hc => (h.1 c hc).2, h.2⟩⟩
  intro c hc
  rcases List.mem_cons.mp hc with rfl | hc
  · exact ⟨hb, hn⟩
  · exact ⟨(h.1 c hc).1, hn.trans (h.1 c hc).2⟩

/-- What a run reads is a prefix of a concatenation of blocks. The open block of the starting state
is completed by `body` and, in the end, by the item that `close` supplies. -/
theorem Step.blocks [Preorder σ] {x : Brackets σ β} (close : ∀ s, ∃ b, x.closing s b) {st st' : State σ}
    {items : List β} (h : Trace (Step x) st items st') :
    match st.current with
    | none => ∃ blocks, Blocks x st.last blocks ∧ items <+: blocks.flatMap Block.items
    | some s => st.last = s → ∃ body last blocks, (∀ i ∈ body, x.inside s i) ∧ x.closing s last ∧
        Blocks x s blocks ∧ items <+: body ++ last :: blocks.flatMap Block.items := by
  induction h with
  | nil st =>
    rcases st with ⟨n, _ | s⟩
    · exact ⟨[], Blocks.nil x n, List.nil_prefix⟩
    · intro _
      obtain ⟨last, hlast⟩ := close s
      exact ⟨[], last, [], fun _ h => (nomatch h), hlast, Blocks.nil x s, List.nil_prefix⟩
  | @cons st mid st' item rest hstep _ ih =>
    cases hstep with
    | @opening n s _ hlt hopen =>
      obtain ⟨body, last, blocks, hbody, hlast, hblocks, hheader⟩ := ih rfl
      refine ⟨⟨s, item, body, last⟩ :: blocks, Blocks.cons ⟨hopen, hbody, hlast⟩ hlt hblocks, ?_⟩
      simpa [Block.items] using hheader
    | @inside n s _ hin =>
      intro hn
      obtain ⟨body, last, blocks, hbody, hlast, hblocks, hheader⟩ := ih hn
      refine ⟨item :: body, last, blocks, ?_, hlast, hblocks, by simpa using hheader⟩
      intro i hi
      rcases List.mem_cons.mp hi with rfl | hi
      · exact hin
      · exact hbody i hi
    | @closing n s _ hclose =>
      intro hn
      obtain ⟨blocks, hblocks, hheader⟩ := ih
      obtain rfl : n = s := hn
      exact ⟨[], item, blocks, fun _ h => (nomatch h), hclose, hblocks, by simpa using hheader⟩

end Bracket

end Emucap.Lib
