import Emucap.Live.Broker.Registry
import Emucap.Lib.Bracket

/-!
# The stream of one registration

What a producer that opted in is handed reads as blocks of one session each (`Routed`), and lines leave in the order
they were handed over (`Flows`). Every change a critical section makes to a registration keeps `EmuInv`.
-/

namespace Emucap.Live.Broker

open Emucap.Lib

/-! ## Lines handed to a producer -/

def lifecycleLine (inst : Instance) (gen : Nat) (runtime : String) (session : Nat)
    (kind : EventKind) : Handed :=
  ⟨none, .render (SessionEvent.envelope ⟨kind, runtime, attachment inst gen session⟩)⟩

/-- A request that carries an attachment and is no lifecycle line. -/
structure Stamped (v : Json) (a : Attachment) : Prop where
  stamp : ∃ params, v.get "params" = some params ∧ params.get attachmentField = some a.toValue
  plain : v.get eventField = none

/-- The blocks of one registration: a session's requests come from the frontend of that session and
carry its attachment. -/
def brackets (inst : Instance) (front : Conn → Option Front) (gen : Nat) (runtime : String) :
    Bracket.Brackets Nat Handed where
  opening s h := h = lifecycleLine inst gen runtime s .attach
  closing s h := h = lifecycleLine inst gen runtime s .detach
  inside s h := ∃ conn f v, h.source = some conn ∧ front conn = some f ∧ f.registration = gen ∧
    f.session = s ∧ h.line = .doc v ∧ Stamped v (attachment inst gen s)

/-- What was handed so far is bracketed with sessions up to `n`, and unless a line was refused the
open block is `current`. -/
def Routed (x : Bracket.Brackets Nat Handed) (n : Nat) (current : Option Nat) (o : Outbound) : Prop :=
  ∃ st, Trace (Bracket.Step x) ⟨0, none⟩ o.handed st ∧ st.last ≤ n ∧
    (o.refused = false → st.current = current ∧ ∀ s, current = some s → st.last = s)

section

variable {x : Bracket.Brackets Nat Handed} {n n' : Nat} {current current' : Option Nat} {o : Outbound}

theorem enqueue_handed (o : Outbound) (h : Handed) : (o.enqueue h).2.handed = o.record h := by
  unfold Outbound.enqueue
  split_ifs <;> rfl

theorem enqueue_refused {h : Handed} (hfail : (o.enqueue h).1 = false) :
    (o.enqueue h).2.refused = true := by
  unfold Outbound.enqueue at hfail ⊢
  split_ifs at hfail ⊢
  rfl

theorem enqueue_not_refused {h : Handed} (hr : (o.enqueue h).2.refused = false) :
    o.refused = false := by
  unfold Outbound.enqueue at hr
  split_ifs at hr
  exact hr

theorem Routed.of_refused (h : Routed x n current o) (hr : o.refused = true) :
    Routed x n current' o := by
  obtain ⟨st, htrace, hle, -⟩ := h
  exact ⟨st, htrace, hle, fun hf => by rw [hr] at hf; cases hf⟩

theorem Routed.mono (h : Routed x n current o) (hn : n ≤ n') : Routed x n' current o := by
  obtain ⟨st, htrace, hle, hst⟩ := h
  exact ⟨st, htrace, hle.trans hn, hst⟩

theorem Routed.enqueue {item : Handed} (h : Routed x n current o)
    (hstep : ∀ last, last ≤ n → (∀ s, current = some s → last = s) →
      ∃ last', Bracket.Step x ⟨last, current⟩ item ⟨last', current'⟩ ∧ last' ≤ n' ∧
        ∀ s, current' = some s → last' = s) (hn : n ≤ n') :
    Routed x n' current' (o.enqueue item).2 := by
  obtain ⟨⟨last, cur⟩, htrace, hle, hst⟩ := h
  unfold Routed
  rw [enqueue_handed, Outbound.record]
  cases hr : o.refused with
  | true =>
    refine ⟨_, htrace, hle.trans hn, fun hf => ?_⟩
    rw [enqueue_not_refused hf] at hr
    cases hr
  | false =>
    obtain ⟨rfl, hlast⟩ := hst hr
    obtain ⟨last', hs, hle', hlast'⟩ := hstep last hle hlast
    exact ⟨_, htrace.snoc hs, hle', fun _ => ⟨rfl, hlast'⟩⟩

end

/-! ## The writer -/

/-- Lines leave in the order they were handed over, and only while the socket is open. -/
structure Flows (o : Outbound) : Prop where
  sent : o.sent <+: o.handed.map (·.line)
  flowing : o.socketOpen = true →
    o.handed.map (·.line) = o.sent ++ o.writing.toList ++ o.queue
  refused : o.refused = true → o.socketOpen = false

theorem Flows.new : Flows .new := ⟨List.nil_prefix, fun _ => rfl, fun h => by cases h⟩

theorem record_extends (o : Outbound) (h : Handed) :
    o.handed.map (·.line) <+: (o.record h).map (·.line) := by
  unfold Outbound.record
  split_ifs
  · exact List.prefix_rfl
  · rw [List.map_append]
    exact List.prefix_append _ _

theorem Flows.enqueue {o : Outbound} (h : Flows o) (item : Handed) : Flows (o.enqueue item).2 := by
  unfold Outbound.enqueue
  split_ifs with hroom
  · refine ⟨h.sent.trans (record_extends o item), fun hopen => ?_, h.refused⟩
    have hr : o.refused = false := by
      cases hr : o.refused with
      | false => rfl
      | true => exact absurd (hopen.symm.trans (h.refused hr)) (by simp)
    show (o.record item).map (·.line) = o.sent ++ o.writing.toList ++ (o.queue ++ [item.line])
    rw [Outbound.record, hr, ← List.append_assoc, ← h.flowing hopen]
    simp
  · exact ⟨h.sent.trans (record_extends o item), fun hopen => (by cases hopen), fun _ => rfl⟩

theorem Flows.take {o : Outbound} (h : Flows o) : Flows o.take := by
  unfold Outbound.take
  split
  · rename_i line queue hwriting hqueue
    split_ifs
    · refine ⟨h.sent, fun hopen => ?_, h.refused⟩
      rw [h.flowing hopen, hwriting, hqueue]
      simp
    · exact h
  · exact h

theorem Flows.write {o : Outbound} (h : Flows o) (ok : Bool) : Flows (o.write ok) := by
  unfold Outbound.write
  split
  · exact h
  · rename_i line hwriting
    split_ifs with hok
    · have hflow := h.flowing hok.2
      rw [hwriting] at hflow
      refine ⟨?_, fun _ => ?_, h.refused⟩
      · rw [hflow]
        exact List.prefix_append _ _
      · rw [hflow]
        simp
    · exact ⟨h.sent, fun hopen => (by cases hopen), fun _ => rfl⟩

/-! ## One registration -/

def Emu.current (e : Emu) : Option Nat := e.session.map fun _ => e.sessionGen

/-- What holds of the registration under `name` when `n` generations have been given out. -/
structure EmuInv (inst : Instance) (n : Nat) (front : Conn → Option Front) (name : String)
    (e : Emu) : Prop where
  gen_pos : 0 < e.gen
  gen_le : e.gen ≤ n
  sessionGen_le : e.sessionGen ≤ n
  paired : ∀ c, e.session = some c → front c = some ⟨name, e.gen, e.sessionGen⟩
  runtime : ∀ rt, e.lifecycleRuntime = some rt → rt ≠ "" ∧ rt.utf8ByteSize ≤ 256
  flows : Flows e.toEmu
  bracketed : ∀ rt, e.lifecycleRuntime = some rt →
    Routed (brackets inst front e.gen rt) n e.current e.toEmu

section

variable {inst : Instance} {n n' : Nat} {front front' : Conn → Option Front} {name : String} {e : Emu}

theorem brackets_step_mono {gen : Nat} {rt : String} (hfront : ∀ c f, front c = some f → front' c = some f)
    {s t : Bracket.State Nat} {h : Handed} (hs : Bracket.Step (brackets inst front gen rt) s h t) :
    Bracket.Step (brackets inst front' gen rt) s h t := by
  cases hs with
  | opening hlt hopen => exact .opening hlt hopen
  | inside hin =>
    obtain ⟨c, f, v, hsrc, hf, hrest⟩ := hin
    exact .inside ⟨c, f, v, hsrc, hfront c f hf, hrest⟩
  | closing hclose => exact .closing hclose

theorem EmuInv.mono (h : EmuInv inst n front name e) (hn : n ≤ n')
    (hfront : ∀ c f, front c = some f → front' c = some f) : EmuInv inst n' front' name e where
  gen_pos := h.gen_pos
  gen_le := h.gen_le.trans hn
  sessionGen_le := h.sessionGen_le.trans hn
  paired := fun c hc => hfront _ _ (h.paired c hc)
  runtime := h.runtime
  flows := h.flows
  bracketed := by
    intro rt hrt
    obtain ⟨st, htrace, hle, hst⟩ := (h.bracketed rt hrt).mono hn
    exact ⟨st, htrace.imp (brackets_step_mono hfront), hle, hst⟩

theorem lifecycle_legacy (hrt : e.lifecycleRuntime = none) (session : Nat) (kind : EventKind) :
    lifecycle e inst session kind = (true, e) := by
  rw [lifecycle, hrt]

theorem lifecycle_opted {rt : String} (hrt : e.lifecycleRuntime = some rt) (session : Nat)
    (kind : EventKind) : lifecycle e inst session kind =
      ((e.toEmu.enqueue (lifecycleLine inst e.gen rt session kind)).1,
        { e with toEmu := (e.toEmu.enqueue (lifecycleLine inst e.gen rt session kind)).2 }) := by
  rw [lifecycle, hrt]
  rfl

theorem lifecycle_detach_inv (h : EmuInv inst n front name e) (hs : e.session.isSome) :
    EmuInv inst n front name (lifecycle { e with session := none } inst e.sessionGen .detach).2 := by
  rcases Option.eq_none_or_eq_some e.lifecycleRuntime with hrt | ⟨rt, hrt⟩
  · rw [lifecycle_legacy (e := { e with session := none }) hrt]
    refine ⟨h.gen_pos, h.gen_le, h.sessionGen_le, ?_, h.runtime, h.flows, ?_⟩
    · intro c hc; cases hc
    · intro rt hrt'; cases hrt.symm.trans hrt'
  · rw [lifecycle_opted (e := { e with session := none }) hrt]
    refine ⟨h.gen_pos, h.gen_le, h.sessionGen_le, ?_, h.runtime, h.flows.enqueue _, ?_⟩
    · intro c hc; cases hc
    · intro rt' hrt'
      obtain rfl : rt = rt' := Option.some.inj (hrt.symm.trans hrt')
      obtain ⟨c, hc⟩ := Option.isSome_iff_exists.mp hs
      have hcur : e.current = some e.sessionGen := by rw [Emu.current, hc]; rfl
      refine (h.bracketed rt hrt).enqueue (fun last hle hlast => ⟨last, ?_, hle, ?_⟩) (le_refl n)
      · rw [hcur]
        exact .closing rfl
      · intro s hs; cases hs

theorem lifecycle_attach_inv (h : EmuInv inst n front name e) (hs : e.session = none) (conn : Conn)
    (hfront : ∀ c f, front c = some f → front' c = some f)
    (hconn : (lifecycle e inst (n + 1) .attach).1 = true → front' conn = some ⟨name, e.gen, n + 1⟩) :
    EmuInv inst (n + 1) front' name
      (if (lifecycle e inst (n + 1) .attach).1 then
        { (lifecycle e inst (n + 1) .attach).2 with session := some conn, sessionGen := n + 1 }
      else (lifecycle e inst (n + 1) .attach).2) := by
  have hmono := h.mono (Nat.le_succ n) hfront
  cases hrt : e.lifecycleRuntime with
  | none =>
    rw [lifecycle_legacy hrt] at hconn ⊢
    rw [if_pos rfl]
    refine ⟨hmono.gen_pos, hmono.gen_le, le_refl _, ?_, hmono.runtime, hmono.flows, ?_⟩
    · intro c hc
      obtain rfl := Option.some.inj hc
      exact hconn rfl
    · intro rt hrt'; cases hrt.symm.trans hrt'
  | some rt =>
    rw [lifecycle_opted hrt] at hconn ⊢
    have hcur : e.current = none := by rw [Emu.current, hs]; rfl
    have hrouted : Routed (brackets inst front' e.gen rt) (n + 1) (some (n + 1))
        (e.toEmu.enqueue (lifecycleLine inst e.gen rt (n + 1) .attach)).2 := by
      obtain ⟨st, htrace, hle, hst⟩ := h.bracketed rt hrt
      have hold : Routed (brackets inst front' e.gen rt) n none e.toEmu :=
        ⟨st, htrace.imp (brackets_step_mono hfront), hle, fun hr => hcur ▸ hst hr⟩
      refine hold.enqueue (fun last hle _ => ⟨n + 1, ?_, le_refl _, ?_⟩) (Nat.le_succ n)
      · exact .opening (Nat.lt_succ_of_le hle) rfl
      · intro s hs; exact Option.some.inj hs
    cases hok : (e.toEmu.enqueue (lifecycleLine inst e.gen rt (n + 1) .attach)).1 with
    | true =>
      rw [hok] at hconn
      rw [if_pos rfl]
      refine ⟨hmono.gen_pos, hmono.gen_le, le_refl _, ?_, hmono.runtime, hmono.flows.enqueue _, ?_⟩
      · intro c hc
        obtain rfl := Option.some.inj hc
        exact hconn rfl
      · intro rt' hrt'
        obtain rfl : rt = rt' := Option.some.inj (hrt.symm.trans hrt')
        exact hrouted
    | false =>
      rw [if_neg (by simp)]
      refine ⟨hmono.gen_pos, hmono.gen_le, hmono.sessionGen_le, ?_, hmono.runtime,
        hmono.flows.enqueue _, ?_⟩
      · intro c hc
        cases hs.symm.trans hc
      · intro rt' hrt'
        obtain rfl : rt = rt' := Option.some.inj (hrt.symm.trans hrt')
        exact hrouted.of_refused (enqueue_refused hok)

def Same (e e' : Emu) : Prop := e'.gen = e.gen ∧ e'.lifecycleRuntime = e.lifecycleRuntime

theorem lifecycle_same (inst : Instance) (e : Emu) (session : Nat) (kind : EventKind) :
    Same e (lifecycle e inst session kind).2 ∧ (lifecycle e inst session kind).2.session = e.session := by
  unfold lifecycle
  split <;> exact ⟨⟨rfl, rfl⟩, rfl⟩

theorem dropSession_same (inst : Instance) (e : Emu) :
    Same e (dropSession e inst).2 ∧ (dropSession e inst).2.session = none := by
  unfold dropSession
  split_ifs with hs
  · exact lifecycle_same inst { e with session := none } e.sessionGen .detach
  · exact ⟨⟨rfl, rfl⟩, by simpa using hs⟩

theorem pairSession_same (inst : Instance) (e : Emu) (conn : Conn) (session : Nat) :
    Same e (pairSession e inst conn session).2 := by
  have hdrop := (dropSession_same inst e).1
  have hattach := (lifecycle_same inst (dropSession e inst).2 session .attach).1
  unfold pairSession
  dsimp only
  split_ifs
  · exact ⟨hattach.1.trans hdrop.1, hattach.2.trans hdrop.2⟩
  · exact ⟨hattach.1.trans hdrop.1, hattach.2.trans hdrop.2⟩
  · exact hdrop

theorem dropSession_inv (h : EmuInv inst n front name e) :
    EmuInv inst n front name (dropSession e inst).2 := by
  unfold dropSession
  split_ifs with hs
  · exact lifecycle_detach_inv h hs
  · exact h

theorem pairSession_inv (h : EmuInv inst n front name e) (conn : Conn)
    (hfront : ∀ c f, front c = some f → front' c = some f)
    (hconn : (pairSession e inst conn (n + 1)).1 = true → front' conn = some ⟨name, e.gen, n + 1⟩) :
    EmuInv inst (n + 1) front' name (pairSession e inst conn (n + 1)).2 := by
  have hdrop := dropSession_inv h
  obtain ⟨hsame, hnone⟩ := dropSession_same inst e
  unfold pairSession at hconn ⊢
  dsimp only at hconn ⊢
  by_cases hok : (dropSession e inst).1 = true
  · rw [if_pos hok] at hconn ⊢
    have hattach := lifecycle_attach_inv hdrop hnone conn hfront fun hok' => by
      rw [if_pos hok'] at hconn
      rw [hconn rfl, hsame.1]
    split_ifs at hattach ⊢
    · exact hattach
    · exact hattach
  · rw [if_neg hok]
    exact hdrop.mono (Nat.le_succ n) hfront

theorem enqueue_request_inv (h : EmuInv inst n front name e) {item : Handed}
    (hs : e.session.isSome) (hin : ∀ rt, e.lifecycleRuntime = some rt →
      (brackets inst front e.gen rt).inside e.sessionGen item) :
    EmuInv inst n front name { e with toEmu := (e.toEmu.enqueue item).2 } := by
  refine ⟨h.gen_pos, h.gen_le, h.sessionGen_le, h.paired, h.runtime, h.flows.enqueue _, ?_⟩
  intro rt hrt
  obtain ⟨c, hc⟩ := Option.isSome_iff_exists.mp hs
  have hcur : e.current = some e.sessionGen := by rw [Emu.current, hc]; rfl
  refine (h.bracketed rt hrt).enqueue (fun last hle hlast => ⟨last, ?_, hle, ?_⟩) (le_refl n)
  · show Bracket.Step _ ⟨last, e.current⟩ item ⟨last, e.current⟩
    rw [hcur]
    exact .inside (hin rt hrt)
  · intro s hs
    exact hlast s hs

theorem writer_inv (h : EmuInv inst n front name e) {o : Outbound} (hflows : Flows o)
    (hhanded : o.handed = e.toEmu.handed) (hrefused : o.refused = e.toEmu.refused) :
    EmuInv inst n front name { e with toEmu := o } := by
  refine ⟨h.gen_pos, h.gen_le, h.sessionGen_le, h.paired, h.runtime, hflows, ?_⟩
  intro rt hrt
  obtain ⟨st, htrace, hle, hst⟩ := h.bracketed rt hrt
  exact ⟨st, by rw [hhanded]; exact htrace, hle, by rw [hrefused]; exact hst⟩

end

theorem take_history (o : Outbound) : o.take.handed = o.handed ∧ o.take.refused = o.refused := by
  unfold Outbound.take
  split
  · split_ifs <;> exact ⟨rfl, rfl⟩
  · exact ⟨rfl, rfl⟩

theorem write_history (o : Outbound) (ok : Bool) :
    (o.write ok).handed = o.handed ∧ (o.write ok).refused = o.refused := by
  unfold Outbound.write
  split
  · exact ⟨rfl, rfl⟩
  · split_ifs <;> exact ⟨rfl, rfl⟩

end Emucap.Live.Broker
