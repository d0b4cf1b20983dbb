import Emucap.Live.Broker.Stream
import Emucap.Live.Broker.System

/-!
# Routing over whole runs

`Inv` is what every order of critical sections keeps: frontends have generations of their own, a waiting request is
stamped for its frontend, and a waiting response is fenced with the session it goes to.
-/

namespace Emucap.Live.Broker

open Emucap.Lib

/-! ## The whole broker -/

/-- A waiting request is stamped for its frontend, as far as its registration wants that. -/
def Prepared (inst : Instance) (reg : Registry) (p : Pending) : Prop :=
  ∀ e, reg.find p.front.name = some e → e.gen = p.front.registration → e.lifecycleRuntime.isSome →
    ∃ v, p.line = .doc v ∧ Stamped v (attachment inst p.front.registration p.front.session)

/-- A response goes to a frontend that has the session it is fenced with. -/
def Targeted (w : World) (r : Reply) : Prop :=
  ∃ f, w.front r.target = some f ∧ f.session = r.session

structure Inv (inst : Instance) (w : World) : Prop where
  inst_eq : w.reg.inst = inst
  bound : w.reg.nextGen < 2 ^ 64
  emu : ∀ name e, w.reg.find name = some e → EmuInv inst w.reg.nextGen w.front name e
  front_le : ∀ c f, w.front c = some f → 0 < f.session ∧ f.session ≤ w.reg.nextGen ∧
    f.registration ≤ w.reg.nextGen
  front_inj : ∀ c c' f f', w.front c = some f → w.front c' = some f' → f.session = f'.session → c = c'
  prepared : ∀ p ∈ w.requests, w.front p.source = some p.front ∧ Prepared inst w.reg p
  targeted : ∀ r ∈ w.replies, Targeted w r
  delivered : ∀ d ∈ w.delivered, Targeted w d.1 ∧ d.2 = fenceIncoming d.1.raw d.1.session

/-- How a critical section may change the registry: a registration keeps its identity, and a new one
has a generation that was not given out before. -/
structure Evolves (reg reg' : Registry) : Prop where
  inst : reg'.inst = reg.inst
  le : reg.nextGen ≤ reg'.nextGen
  emu : ∀ name e', reg'.find name = some e' →
    (∃ e, reg.find name = some e ∧ Same e e') ∨ reg.nextGen < e'.gen

theorem Evolves.refl (reg : Registry) : Evolves reg reg :=
  ⟨rfl, le_refl _, fun _ e he => Or.inl ⟨e, he, rfl, rfl⟩⟩

theorem Registry.find_put (reg : Registry) (name name' : String) (e : Emu) :
    (reg.put name e).find name' = if name' = name then some e else reg.find name' :=
  OrdMap.find?_insert name name' e reg.emus

theorem Evolves.put {reg : Registry} {name : String} {e e' : Emu} (n : Nat) (hle : reg.nextGen ≤ n)
    (he : reg.find name = some e) (hsame : Same e e') :
    Evolves reg ({ reg with nextGen := n }.put name e') := by
  refine ⟨rfl, hle, fun name' e'' he'' => Or.inl ?_⟩
  rw [Registry.find_put] at he''
  split_ifs at he'' with hname
  · obtain rfl := Option.some.inj he''
    exact ⟨e, hname ▸ he, hsame⟩
  · exact ⟨e'', he'', rfl, rfl⟩

section

variable {inst : Instance} {w w' : World}

theorem Inv.prepared_evolves (h : Inv inst w) {reg' : Registry} (hev : Evolves w.reg reg')
    {p : Pending} (hp : p ∈ w.requests) : Prepared inst reg' p := by
  obtain ⟨hfront, hprep⟩ := h.prepared p hp
  intro e' he' hgen hrt
  rcases hev.emu _ _ he' with ⟨e, he, hsame⟩ | hnew
  · exact hprep e he (hsame.1 ▸ hgen) (hsame.2 ▸ hrt)
  · have := (h.front_le _ _ hfront).2.2
    omega

theorem Inv.update (h : Inv inst w) (hev : Evolves w.reg w'.reg) (hbound : w'.reg.nextGen < 2 ^ 64)
    (hemu : ∀ name e, w'.reg.find name = some e → EmuInv inst w'.reg.nextGen w.front name e)
    (hfronts : w'.fronts = w.fronts) (hrequests : ∀ p ∈ w'.requests, p ∈ w.requests)
    (hreplies : ∀ r ∈ w'.replies, r ∈ w.replies) (hdelivered : w'.delivered = w.delivered) :
    Inv inst w' := by
  have hfront : w'.front = w.front := by funext c; rw [World.front, hfronts]; rfl
  refine ⟨hev.inst.trans h.inst_eq, hbound, ?_, ?_, ?_, ?_, ?_, ?_⟩
  · rw [hfront]; exact hemu
  · intro c f hf
    rw [hfront] at hf
    have := h.front_le c f hf
    have := hev.le
    omega
  · rw [hfront]; exact h.front_inj
  · intro p hp
    rw [hfront]
    exact ⟨(h.prepared p (hrequests p hp)).1, h.prepared_evolves hev (hrequests p hp)⟩
  · intro r hr
    rw [Targeted, hfront]
    exact h.targeted r (hreplies r hr)
  · rw [hdelivered]
    intro d hd
    rw [Targeted, hfront]
    exact h.delivered d hd

theorem Inv.put (h : Inv inst w) {name : String} {e e' : Emu} (he : w.reg.find name = some e)
    (hsame : Same e e') (hinv : EmuInv inst w.reg.nextGen w.front name e') (hreg : w'.reg = w.reg.put name e')
    (hfronts : w'.fronts = w.fronts) (hrequests : ∀ p ∈ w'.requests, p ∈ w.requests)
    (hreplies : ∀ r ∈ w'.replies, r ∈ w.replies) (hdelivered : w'.delivered = w.delivered) :
    Inv inst w' := by
  refine h.update ?_ ?_ ?_ hfronts hrequests hreplies hdelivered
  · rw [hreg]
    exact Evolves.put w.reg.nextGen (le_refl _) he hsame
  · rw [hreg]
    exact h.bound
  · intro name' e'' he''
    rw [hreg, Registry.find_put] at he''
    rw [hreg]
    split_ifs at he'' with hname
    · obtain rfl := Option.some.inj he''
      exact hname ▸ hinv
    · exact h.emu name' e'' he''

theorem routed_eq_some {reg : Registry} {name : String} {registration session : Nat} {e : Emu}
    (h : routed reg name registration session = some e) :
    reg.find name = some e ∧ e.gen = registration ∧ e.sessionGen = session ∧ e.session.isSome := by
  obtain ⟨hfind, hcond⟩ := Option.filter_eq_some_iff.mp h
  simp only [decide_eq_true_eq] at hcond
  exact ⟨hfind, hcond⟩

theorem Inv.detach (h : Inv inst w) (name : String) (registration session : Nat) :
    Inv inst (w.step (.detach name registration session)) := by
  unfold World.step
  dsimp only
  unfold detachSession
  split
  · exact h
  · rename_i e he
    obtain ⟨hfind, -, rfl, hs⟩ := routed_eq_some he
    refine h.put hfind ?_ ?_ rfl rfl (fun _ hp => hp) (fun _ hr => hr) rfl
    · exact (lifecycle_same w.reg.inst { e with session := none } e.sessionGen .detach).1
    · rw [h.inst_eq]
      exact lifecycle_detach_inv (h.emu name e hfind) hs

theorem register_cases (reg : Registry) (hello : Json) :
    (∃ anon, (register reg hello).2 = { reg with anon := anon }) ∨
      ∃ anon name runtime methods, reg.find name = none ∧ reg.nextGen + 1 < 2 ^ 64 ∧
        advertisedRuntime hello = .ok runtime ∧
        (register reg hello).2 =
          ({ reg with anon := anon, nextGen := reg.nextGen + 1 } : Registry).put name
            ⟨.new, runtime, methods, hello, none, reg.nextGen + 1, 0⟩ := by
  unfold register
  split
  · exact Or.inl ⟨reg.anon, rfl⟩
  · rename_i runtime hruntime
    split_ifs with hmesen
    · exact Or.inl ⟨reg.anon, rfl⟩
    · dsimp only
      split
      · exact Or.inl ⟨_, rfl⟩
      · rename_i name hname
        split_ifs with hfree hgen
        · exact Or.inl ⟨_, rfl⟩
        · exact Or.inr ⟨_, name, runtime, _, Option.not_isSome_iff_eq_none.mp hfree, hgen, hruntime,
            rfl⟩
        · exact Or.inl ⟨_, rfl⟩

theorem new_emu_inv {n : Nat} {front : Conn → Option Front} {name : String} {hello : Json}
    {runtime : Option String} {methods : List String} (hrt : advertisedRuntime hello = .ok runtime) :
    EmuInv inst (n + 1) front name ⟨.new, runtime, methods, hello, none, n + 1, 0⟩ where
  gen_pos := Nat.succ_pos n
  gen_le := le_refl _
  sessionGen_le := Nat.zero_le _
  paired := fun c hc => by cases hc
  runtime := fun rt h => advertisedRuntime_bounds (hrt.trans (congrArg Except.ok h))
  flows := Flows.new
  bracketed := fun rt _ =>
    ⟨_, Trace.nil _, Nat.zero_le _, fun _ => ⟨rfl, fun s hs => by cases hs⟩⟩

theorem Inv.register (h : Inv inst w) (hello : Json) : Inv inst (w.step (.register hello)) := by
  rcases register_cases w.reg hello with ⟨anon, hreg⟩ | ⟨anon, name, rt, methods, hfree, hgen, hrt, hreg⟩
  · refine h.update ?_ ?_ ?_ rfl (fun _ hp => hp) (fun _ hr => hr) rfl
    · show Evolves w.reg (Broker.register w.reg hello).2
      rw [hreg]
      exact ⟨rfl, le_refl _, fun _ e he => Or.inl ⟨e, he, rfl, rfl⟩⟩
    · show (Broker.register w.reg hello).2.nextGen < 2 ^ 64
      rw [hreg]
      exact h.bound
    · show ∀ name e, (Broker.register w.reg hello).2.find name = some e →
        EmuInv inst (Broker.register w.reg hello).2.nextGen w.front name e
      rw [hreg]
      exact h.emu
  · refine h.update ?_ ?_ ?_ rfl (fun _ hp => hp) (fun _ hr => hr) rfl
    · show Evolves w.reg (Broker.register w.reg hello).2
      rw [hreg]
      refine ⟨rfl, Nat.le_succ _, fun name' e he => ?_⟩
      rw [Registry.find_put] at he
      split_ifs at he with hname
      · obtain rfl := Option.some.inj he
        exact Or.inr (Nat.lt_succ_self _)
      · exact Or.inl ⟨e, he, rfl, rfl⟩
    · show (Broker.register w.reg hello).2.nextGen < 2 ^ 64
      rw [hreg]
      exact hgen
    · show ∀ name e, (Broker.register w.reg hello).2.find name = some e →
        EmuInv inst (Broker.register w.reg hello).2.nextGen w.front name e
      rw [hreg]
      intro name' e he
      rw [Registry.find_put] at he
      split_ifs at he with hname
      · obtain rfl := Option.some.inj he
        exact new_emu_inv hrt
      · exact (h.emu name' e he).mono (Nat.le_succ _) fun _ _ hf => hf

theorem Inv.unregister (h : Inv inst w) (name : String) (gen : Nat) :
    Inv inst (w.step (.unregister name gen)) := by
  have herase : ∀ name' e, (Broker.unregister w.reg name gen).1.find name' = some e →
      w.reg.find name' = some e := by
    intro name' e he
    unfold Broker.unregister at he
    split at he
    · split_ifs at he with hgen
      · by_cases hname : name' = name
        · subst hname
          simp [Registry.find] at he
        · simpa [Registry.find, OrdMap.find?_erase_ne hname] using he
      · exact he
    · exact he
  have hreg : (Broker.unregister w.reg name gen).1.inst = w.reg.inst ∧
      (Broker.unregister w.reg name gen).1.nextGen = w.reg.nextGen := by
    unfold Broker.unregister
    split
    · split_ifs <;> exact ⟨rfl, rfl⟩
    · exact ⟨rfl, rfl⟩
  refine h.update ⟨hreg.1, hreg.2.ge, fun name' e he => ?_⟩ ?_ ?_ rfl (fun _ hp => hp)
    (fun _ hr => hr) rfl
  · exact Or.inl ⟨e, herase name' e he, rfl, rfl⟩
  · show (Broker.unregister w.reg name gen).1.nextGen < 2 ^ 64
    rw [hreg.2]
    exact h.bound
  · intro name' e he
    show EmuInv inst (Broker.unregister w.reg name gen).1.nextGen w.front name' e
    rw [hreg.2]
    exact h.emu name' e (herase name' e he)

theorem Inv.writer (h : Inv inst w) (name : String) {f : Outbound → Outbound}
    (hflows : ∀ o, Flows o → Flows (f o))
    (hhistory : ∀ o, (f o).handed = o.handed ∧ (f o).refused = o.refused) :
    Inv inst (w.writer name f) := by
  unfold World.writer
  split
  · exact h
  · rename_i e he
    refine h.put he (show Same e { e with toEmu := f e.toEmu } from ⟨rfl, rfl⟩) ?_ rfl rfl
      (fun _ hp => hp) (fun _ hr => hr) rfl
    have hinv := h.emu name e he
    exact writer_inv hinv (hflows _ hinv.flows) (hhistory _).1 (hhistory _).2

/-! ### Frontends -/

theorem pick_mem {reg : Registry} {want : Option String} {name : String} {e : Emu}
    (h : pick reg want = .ok (name, e)) : reg.find name = some e := by
  unfold pick at h
  split at h
  · split at h
    · rename_i hfind
      cases h
      exact hfind
    · cases h
  · split at h
    · rename_i heq
      cases h
      simp [Registry.find, heq, OrdMap.find?]
    · cases h
    · cases h

/-- An attach leaves the registry alone, spends a generation, or pairs the frontend with it. -/
theorem attachSession_cases (reg : Registry) (conn : Conn) (params : AttachParams) :
    (∃ e, attachSession reg conn params = (.error e, reg, none)) ∨
      (reg.nextGen + 1 < 2 ^ 64 ∧
        ((∃ e, attachSession reg conn params =
            (.error e, { reg with nextGen := reg.nextGen + 1 }, none)) ∨
          ∃ name e, reg.find name = some e ∧
            (attachSession reg conn params).2.1 = ({ reg with nextGen := reg.nextGen + 1 } : Registry).put
              name (pairSession e reg.inst conn (reg.nextGen + 1)).2 ∧
            (((attachSession reg conn params).1 = .ok ⟨name, e.gen, reg.nextGen + 1⟩ ∧
                (pairSession e reg.inst conn (reg.nextGen + 1)).1 = true) ∨
              ((∃ err, (attachSession reg conn params).1 = .error err) ∧
                (pairSession e reg.inst conn (reg.nextGen + 1)).1 = false)))) := by
  unfold attachSession
  split
  · exact Or.inl ⟨_, rfl⟩
  · rename_i name e hpick
    split_ifs with hgen
    · refine Or.inr ⟨hgen, ?_⟩
      dsimp only
      split
      · exact Or.inl ⟨_, rfl⟩
      · refine Or.inr ⟨name, e, pick_mem hpick, rfl, ?_⟩
        cases hok : (pairSession e reg.inst conn (reg.nextGen + 1)).1 with
        | true => exact Or.inl ⟨rfl, rfl⟩
        | false => exact Or.inr ⟨⟨_, rfl⟩, rfl⟩
    · exact Or.inl ⟨_, rfl⟩

theorem Inv.emu_paired (h : Inv inst w) {name : String} {e : Emu} (he : w.reg.find name = some e)
    {conn : Conn} {front' : Conn → Option Front} (hfront : ∀ c f, w.front c = some f → front' c = some f)
    (hconn : (pairSession e w.reg.inst conn (w.reg.nextGen + 1)).1 = true →
      front' conn = some ⟨name, e.gen, w.reg.nextGen + 1⟩) :
    ∀ name' e', (({ w.reg with nextGen := w.reg.nextGen + 1 } : Registry).put name
        (pairSession e w.reg.inst conn (w.reg.nextGen + 1)).2).find name' = some e' →
      EmuInv inst (w.reg.nextGen + 1) front' name' e' := by
  intro name' e' he'
  rw [Registry.find_put] at he'
  rw [h.inst_eq] at he' hconn
  split_ifs at he' with hname
  · obtain rfl := Option.some.inj he'
    exact hname ▸ pairSession_inv (h.emu name e he) conn hfront hconn
  · exact (h.emu name' e' he').mono (Nat.le_succ _) hfront

/-- A new frontend joins with a generation no other frontend has. -/
theorem Inv.join (h : Inv inst w) {conn : Conn} (hnew : w.front conn = none) {name : String} {e : Emu}
    (he : w.reg.find name = some e) (hgen : w.reg.nextGen + 1 < 2 ^ 64)
    (hreg : w'.reg = ({ w.reg with nextGen := w.reg.nextGen + 1 } : Registry).put name
      (pairSession e w.reg.inst conn (w.reg.nextGen + 1)).2)
    (hfronts : w'.fronts = OrdMap.insert conn ⟨name, e.gen, w.reg.nextGen + 1⟩ w.fronts)
    (hrequests : w'.requests = w.requests) (hreplies : w'.replies = w.replies)
    (hdelivered : w'.delivered = w.delivered) : Inv inst w' := by
  have hfront : ∀ c, w'.front c =
      if c = conn then some ⟨name, e.gen, w.reg.nextGen + 1⟩ else w.front c := by
    intro c
    rw [World.front, hfronts, OrdMap.find?_insert]
    rfl
  have hext : ∀ c f, w.front c = some f → w'.front c = some f := by
    intro c f hf
    rw [hfront, if_neg, hf]
    rintro rfl
    cases hnew.symm.trans hf
  have hev : Evolves w.reg w'.reg := by
    rw [hreg]
    exact Evolves.put _ (Nat.le_succ _) he (pairSession_same _ _ _ _)
  have hnext : w'.reg.nextGen = w.reg.nextGen + 1 := by rw [hreg]; rfl
  refine ⟨hev.inst.trans h.inst_eq, hnext ▸ hgen, ?_, ?_, ?_, ?_, ?_, ?_⟩
  · rw [hnext, hreg]
    exact h.emu_paired he hext fun _ => by rw [hfront, if_pos rfl]
  · intro c f hf
    rw [hfront] at hf
    split_ifs at hf with hc
    · obtain rfl := Option.some.inj hf
      have := (h.emu name e he).gen_le
      exact ⟨Nat.succ_pos _, hnext.ge, by show e.gen ≤ w'.reg.nextGen; omega⟩
    · have := h.front_le c f hf
      omega
  · intro c c' f f' hf hf' hsession
    rw [hfront] at hf hf'
    split_ifs at hf hf' with hc hc' hc'
    · exact hc.trans hc'.symm
    · obtain rfl := Option.some.inj hf
      have := (h.front_le c' f' hf').2.1
      dsimp only at hsession
      omega
    · obtain rfl := Option.some.inj hf'
      have := (h.front_le c f hf).2.1
      dsimp only at hsession
      omega
    · exact h.front_inj c c' f f' hf hf' hsession
  · rw [hrequests]
    exact fun p hp => ⟨hext _ _ (h.prepared p hp).1, h.prepared_evolves hev hp⟩
  · rw [hreplies]
    intro r hr
    obtain ⟨f, hf, hs⟩ := h.targeted r hr
    exact ⟨f, hext _ _ hf, hs⟩
  · rw [hdelivered]
    intro d hd
    obtain ⟨⟨f, hf, hs⟩, hout⟩ := h.delivered d hd
    exact ⟨⟨f, hext _ _ hf, hs⟩, hout⟩

theorem Inv.attach (h : Inv inst w) (conn : Conn) (av : Json) : Inv inst (w.attach conn av) := by
  unfold World.attach
  split_ifs with hnew
  · exact h
  · replace hnew : w.front conn = none := Option.not_isSome_iff_eq_none.mp hnew
    rcases attachSession_cases w.reg conn (.fromValue av) with ⟨e, heq⟩ | ⟨hgen, ⟨e, heq⟩ | hpaired⟩
    · rw [heq]
      exact h.update (Evolves.refl _) h.bound h.emu rfl (fun _ hp => hp) (fun _ hr => hr) rfl
    · rw [heq]
      refine h.update ⟨rfl, Nat.le_succ _, fun _ e he => Or.inl ⟨e, he, rfl, rfl⟩⟩ hgen ?_ rfl
        (fun _ hp => hp) (fun _ hr => hr) rfl
      exact fun name e he => (h.emu name e he).mono (Nat.le_succ _) fun _ _ hf => hf
    · obtain ⟨name, e, he, hreg, hresult⟩ := hpaired
      generalize attachSession w.reg conn (.fromValue av) = r at hreg hresult ⊢
      obtain ⟨result, reg, old⟩ := r
      dsimp only at hreg hresult
      subst hreg
      rcases hresult with ⟨rfl, -⟩ | ⟨⟨err, rfl⟩, hfail⟩
      · exact h.join hnew he hgen rfl rfl rfl rfl rfl
      · refine h.update (Evolves.put _ (Nat.le_succ _) he (pairSession_same _ _ _ _)) hgen ?_ rfl
          (fun _ hp => hp) (fun _ hr => hr) rfl
        exact h.emu_paired he (fun _ _ hf => hf) fun hok => by rw [hfail] at hok; cases hok

/-! ### Requests and responses -/

theorem stampRequest_stamped {v v' : Json} {a : Attachment} (h : stampRequest v a = .ok v')
    (hplain : hasReservedFields v = false) : Stamped v' a := by
  unfold stampRequest at h
  split at h
  · cases h
  · rename_i params hparams
    obtain ⟨hget, hobj⟩ := Option.filter_eq_some_iff.mp hparams
    cases h
    have hevent : v.get eventField = none := by
      simp only [hasReservedFields, Bool.or_eq_false_iff] at hplain
      simpa using hplain.1.1.1
    refine ⟨⟨_, Json.get_set_self _ (Json.isObject_of_get hget), Json.get_set_self _ hobj⟩, ?_⟩
    rw [Json.get_set_ne (by decide), hevent]

/-- A prepared line belongs to a live route and is stamped for it if the producer opted in. -/
theorem prepareRequest_ok {reg : Registry} {front : Front} {line line' : Line}
    (h : prepareRequest reg front line = .ok (some line')) :
    ∃ e, routed reg front.name front.registration front.session = some e ∧
      (e.lifecycleRuntime.isSome → ∃ v, line' = .doc v ∧
        Stamped v (attachment reg.inst front.registration front.session)) := by
  unfold prepareRequest at h
  split_ifs at h with hreserved
  split at h
  · cases h
  · rename_i e he
    refine ⟨e, he, fun hrt => ?_⟩
    obtain ⟨rt, hrt⟩ := Option.isSome_iff_exists.mp hrt
    rw [hrt] at h
    cases line with
    | text s => cases h
    | doc v =>
      have hplain : hasReservedFields v = false := by simpa [Line.parse] using hreserved
      simp only [Line.parse] at h
      cases hstamp : stampRequest v (attachment reg.inst front.registration front.session) with
      | error e => rw [hstamp] at h; cases h
      | ok v' =>
        rw [hstamp] at h
        cases h
        exact ⟨v', rfl, stampRequest_stamped hstamp hplain⟩

theorem Inv.submit (h : Inv inst w) (conn : Conn) (line : Line) : Inv inst (w.submit conn line) := by
  unfold World.submit
  split
  · exact h
  · rename_i front hfront
    split_ifs with hping
    · exact h
    · split
      · rename_i line' hprep
        obtain ⟨e, he, hstamped⟩ := prepareRequest_ok hprep
        obtain ⟨hfind, -, -, -⟩ := routed_eq_some he
        refine ⟨h.inst_eq, h.bound, h.emu, h.front_le, h.front_inj, ?_, h.targeted, h.delivered⟩
        intro p hp
        rcases List.mem_append.mp hp with hp | hp
        · exact h.prepared p hp
        · obtain rfl := List.mem_singleton.mp hp
          refine ⟨hfront, fun e' he' _ hrt => ?_⟩
          obtain rfl : e = e' := Option.some.inj (hfind.symm.trans he')
          rw [← h.inst_eq]
          exact hstamped hrt
      · exact h

theorem Inv.hand (h : Inv inst w) (index : Nat) : Inv inst (w.step (.hand index)) := by
  unfold World.step
  dsimp only
  split
  · exact h
  · rename_i p hp
    have hmem : p ∈ w.requests := List.mem_of_getElem? hp
    obtain ⟨hfront, hprep⟩ := h.prepared p hmem
    have hsub : ∀ q ∈ w.requests.eraseIdx index, q ∈ w.requests :=
      fun q hq => List.mem_of_mem_eraseIdx hq
    unfold admitRequest
    split
    · exact h.update (Evolves.refl _) h.bound h.emu rfl hsub (fun _ hr => hr) rfl
    · rename_i e he
      obtain ⟨hfind, hgen, hsession, hs⟩ := routed_eq_some he
      have hsame : Same e { e with toEmu := (e.toEmu.enqueue ⟨some p.source, p.line⟩).2 } := ⟨rfl, rfl⟩
      refine h.put hfind hsame ?_ rfl rfl hsub (fun _ hr => hr) rfl
      refine enqueue_request_inv (h.emu _ _ hfind) hs fun rt hrt => ?_
      obtain ⟨v, hv, hstamped⟩ := hprep e hfind hgen (by rw [hrt]; rfl)
      refine ⟨p.source, p.front, v, rfl, hfront, hgen.symm, hsession.symm, hv, ?_⟩
      rw [hgen, hsession]
      exact hstamped

theorem Inv.respond (h : Inv inst w) (name : String) (registration : Nat) (line : Line) :
    Inv inst (w.step (.respond name registration line)) := by
  unfold World.step
  dsimp only
  split
  · exact h
  · rename_i conn session htarget
    refine ⟨h.inst_eq, h.bound, h.emu, h.front_le, h.front_inj, h.prepared, ?_, h.delivered⟩
    intro r hr
    rcases List.mem_append.mp hr with hr | hr
    · exact h.targeted r hr
    · obtain rfl := List.mem_singleton.mp hr
      unfold responseTarget at htarget
      split at htarget
      · cases htarget
      · rename_i e he
        obtain ⟨hfind, -⟩ := Option.filter_eq_some_iff.mp he
        obtain ⟨c, hc, hpair⟩ := Option.map_eq_some_iff.mp htarget
        cases hpair
        exact ⟨_, (h.emu name e hfind).paired _ hc, rfl⟩

theorem Inv.deliver (h : Inv inst w) (index : Nat) : Inv inst (w.step (.deliver index)) := by
  unfold World.step
  dsimp only
  split
  · exact h
  · rename_i reply hreply
    have htarget := h.targeted reply (List.mem_of_getElem? hreply)
    refine ⟨h.inst_eq, h.bound, h.emu, h.front_le, h.front_inj, h.prepared, ?_, ?_⟩
    · exact fun r hr => h.targeted r (List.mem_of_mem_eraseIdx hr)
    · intro d hd
      rcases List.mem_append.mp hd with hd | hd
      · exact h.delivered d hd
      · obtain rfl := List.mem_singleton.mp hd
        exact ⟨htarget, rfl⟩

theorem Inv.step (h : Inv inst w) (a : Act) : Inv inst (w.step a) := by
  cases a with
  | register hello => exact h.register hello
  | unregister name gen => exact h.unregister name gen
  | attach conn av => exact h.attach conn av
  | detach name registration session => exact h.detach name registration session
  | submit conn line => exact h.submit conn line
  | hand index => exact h.hand index
  | take name => exact h.writer name (fun _ ho => ho.take) take_history
  | write name ok => exact h.writer name (fun _ ho => ho.write ok) fun o => write_history o ok
  | respond name registration line => exact h.respond name registration line
  | deliver index => exact h.deliver index

theorem Inv.new (inst : Instance) : Inv inst (World.new inst) where
  inst_eq := rfl
  bound := by norm_num [World.new, Registry.new]
  emu := fun name e he => by cases he
  front_le := fun c f hf => by cases hf
  front_inj := fun c c' f f' hf => by cases hf
  prepared := fun p hp => by cases hp
  targeted := fun r hr => by cases hr
  delivered := fun d hd => by cases hd

theorem World.Reachable.inv (h : World.Reachable inst w) : Inv inst w := by
  induction h with
  | new => exact Inv.new inst
  | step a _ ih => exact ih.step a

end

/-! ## What a producer is handed -/

/-- The lines handed to a producer that opted in are blocks of one session each, in increasing order
of sessions; every request stands in the block of the session that submitted it and carries that
session's attachment. -/
theorem sessions_bracketed {inst : Instance} {w : World} (hw : w.Reachable inst) {name : String}
    {e : Emu} (he : w.reg.find name = some e) {rt : String} (hrt : e.lifecycleRuntime = some rt) :
    ∃ blocks : List (Bracket.Block Nat Handed),
      blocks.Pairwise (fun b c => b.tag < c.tag) ∧
      (∀ b ∈ blocks, b.first = lifecycleLine inst e.gen rt b.tag .attach ∧
        b.last = lifecycleLine inst e.gen rt b.tag .detach ∧
        ∀ r ∈ b.body, ∃ conn f v, r.source = some conn ∧ w.front conn = some f ∧
          f.registration = e.gen ∧ f.session = b.tag ∧ r.line = .doc v ∧
          Stamped v (attachment inst e.gen b.tag)) ∧
      e.toEmu.handed <+: blocks.flatMap Bracket.Block.items := by
  obtain ⟨st, htrace, -⟩ := (hw.inv.emu name e he).bracketed rt hrt
  obtain ⟨blocks, ⟨hok, hsorted⟩, hheader⟩ := Bracket.Step.blocks (fun s => ⟨_, rfl⟩) htrace
  refine ⟨blocks, hsorted, fun b hb => ?_, hheader⟩
  obtain ⟨hopen, hbody, hclose⟩ := (hok b hb).1
  exact ⟨hopen, hclose, hbody⟩

/-- One producer, a frontend that sends a request, and a second frontend that takes over. -/
theorem sessions_bracketed_after_steal :
    let inst : Instance := ⟨"01JZZZZZZZZZZZZZZZZZZZZZZZ01JYYYYYYYYYYYYYYYYYYYYYYY", by decide⟩
    let hello : Json := .obj [("control_session_lifecycle", .bool true), ("launch_id", .str "rt"),
      ("name", .str "emu")]
    let request : Json := .obj [("id", .nat 5), ("method", .str "step"), ("params", .obj [])]
    let steal : Json := .obj [("params", .obj [("expected_registration_id", .nat 1)])]
    let w := (World.new inst).run [.register hello, .attach 10 (.obj []), .submit 10 (.doc request),
      .hand 0, .take "emu", .attach 11 steal, .submit 10 (.doc request), .take "emu",
      .detach "emu" 1 2, .detach "emu" 1 3]
    ∃ e, w.reg.find "emu" = some e ∧ e.toEmu.refused = false ∧ e.toEmu.handed.length = 5 ∧
      ∃ blocks : List (Bracket.Block Nat Handed),
        blocks.Pairwise (fun b c => b.tag < c.tag) ∧
        e.toEmu.handed <+: blocks.flatMap Bracket.Block.items := by
  intro inst hello request steal w
  have hw : w.Reachable inst := World.Reachable.new.run _
  have hshape : (w.reg.find "emu").map
      (fun e => (e.lifecycleRuntime, e.toEmu.refused, e.toEmu.handed.length)) =
        some (some "rt", false, 5) := by
    decide +kernel
  obtain ⟨e, he, hfields⟩ := Option.map_eq_some_iff.mp hshape
  simp only [Prod.mk.injEq] at hfields
  obtain ⟨hrt, hrefused, hlen⟩ := hfields
  obtain ⟨blocks, hsorted, -, hheader⟩ := sessions_bracketed hw he hrt
  exact ⟨e, he, hrefused, hlen, blocks, hsorted, hheader⟩

/-! ## What a frontend gets back -/

end Emucap.Live.Broker
