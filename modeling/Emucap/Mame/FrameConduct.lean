import Emucap.Mame.OwnedFrames

/-!
# What an owned frame operation does

The deeds of a run are read as the commands that were sent, the replies that came back, and what was said of the guest.
`Polling` is what holds of them between two rounds, and `Safe` what holds of them wherever a run ends.
-/

namespace Emucap.Mame

open Emucap.Lib

variable {ε : Type} {errors : Errors ε} {id : String} {count : ℕ} {w : Traced (Scene (Answer ε) Unit) (Deed ε)}

/-! ## Reading deeds -/

def Deed.command? : Deed ε → Option String
  | .exchanged name _ _ _ => some name
  | .setFrozen _ => none

def Deed.claim? : Deed ε → Option Bool
  | .exchanged .. => none
  | .setFrozen frozen => some frozen

/-- The reply to this operation that a deed has brought. -/
def Deed.report? (id : String) (count : ℕ) : Deed ε → Option FrameReply
  | .exchanged name _ _ (.ok raw) => if name = "frame" then none else FrameReply.parse raw id count
  | .exchanged _ _ _ (.error _) => none
  | .setFrozen _ => none

def commands (deeds : List (Deed ε)) : List String := deeds.filterMap Deed.command?

def claims (deeds : List (Deed ε)) : List Bool := deeds.filterMap Deed.claim?

def reports (id : String) (count : ℕ) (deeds : List (Deed ε)) : List FrameReply :=
  deeds.filterMap (Deed.report? id count)

@[simp] theorem commands_append (a b : List (Deed ε)) : commands (a ++ b) = commands a ++ commands b :=
  List.filterMap_append

@[simp] theorem claims_append (a b : List (Deed ε)) : claims (a ++ b) = claims a ++ claims b := List.filterMap_append

@[simp] theorem reports_append (a b : List (Deed ε)) :
    reports id count (a ++ b) = reports id count a ++ reports id count b := List.filterMap_append

@[simp] theorem commands_exchanged (name argument : String) (budget : ℕ) (result : Except ε String) :
    commands [.exchanged name argument budget result] = [name] := rfl

@[simp] theorem claims_exchanged (name argument : String) (budget : ℕ) (result : Except ε String) :
    claims [.exchanged name argument budget result] = [] := rfl

@[simp] theorem commands_setFrozen (frozen : Bool) : commands [(.setFrozen frozen : Deed ε)] = [] := rfl

@[simp] theorem claims_setFrozen (frozen : Bool) : claims [(.setFrozen frozen : Deed ε)] = [frozen] := rfl

@[simp] theorem reports_setFrozen (frozen : Bool) : reports id count [(.setFrozen frozen : Deed ε)] = [] := rfl

theorem reports_exchanged {name argument raw : String} {budget : ℕ} {reply : FrameReply} (hname : name ≠ "frame")
    (h : FrameReply.parse raw id count = some reply) :
    reports id count [(.exchanged name argument budget (.ok raw) : Deed ε)] = [reply] := by
  simp [reports, Deed.report?, hname, h]

theorem guard_eq_some {p : Prop} [Decidable p] {u : Unit} : (guard p : Option Unit) = some u ↔ p := by
  by_cases h : p
  · simp [guard, h]
  · simp [guard, h]

theorem parse_ok {raw : String} {reply : FrameReply} (h : FrameReply.parse raw id count = some reply) :
    reply.requested = count ∧ reply.Agrees := by
  unfold FrameReply.parse at h
  split at h
  · simp only [Option.bind_eq_bind, Option.bind_eq_some_iff, guard_eq_some, Option.pure_def, Option.some.injEq] at h
    obtain ⟨_, _, _, _, _, _, _, _, _, _, _, ⟨hcount, hagrees⟩, rfl⟩ := h
    exact ⟨hcount, hagrees⟩
  · cases h

/-! ## Exchanges -/

def Unsent (errors : Errors ε) (e : Halt ε) : Prop :=
  e = .cut ∨ e = .failed (errors.error "native frame exchange deadline expired")

/-- What an exchange leaves that brings no reply: nothing, or the one command. -/
def Fell (name : String) (deeds deeds' : List (Deed ε)) : Prop :=
  deeds' = deeds ∨ ∃ argument budget result, deeds' = deeds ++ [.exchanged name argument budget result]

theorem exchangeUntil_spec {name argument : String} {deadline : ℕ}
    {Q : String → Traced (Scene (Answer ε) Unit) (Deed ε) → Prop}
    {E : Halt ε → Traced (Scene (Answer ε) Unit) (Deed ε) → Prop}
    (hok : ∀ raw budget u, u.trace = w.trace ++ [.exchanged name argument budget (.ok raw)] → Q raw u)
    (herror : ∀ e u, Fell name w.trace u.trace → (u.trace = w.trace → Unsent errors e) → E e u) :
    wp (exchangeUntil errors name argument deadline) Q E w := by
  rw [exchangeUntil, wp_bind]
  refine wp_ask (fun now u hu => ?_) (fun u hu => herror _ _ (.inl hu) fun _ => .inl rfl)
  split
  · rw [exchange, wp_bind]
    refine wp_ask (fun result v hv => ?_) (fun v hv => herror _ _ (.inl (hv.trans hu)) fun _ => .inl rfl)
    rw [wp_bind]
    refine wp_note ?_
    cases result with
    | ok raw => exact hok raw _ _ (by rw [← hu, ← hv])
    | error e =>
      refine herror _ _ (.inr ⟨_, _, _, by rw [← hu, ← hv]⟩) fun hsame => ?_
      rw [hv, hu] at hsame
      simp at hsame
  · exact herror _ _ (.inl hu) fun _ => .inr rfl

theorem exchangeReply_spec {name argument : String} {deadline : ℕ}
    {Q : FrameReply → Traced (Scene (Answer ε) Unit) (Deed ε) → Prop}
    {E : Halt ε → Traced (Scene (Answer ε) Unit) (Deed ε) → Prop}
    (hok : ∀ reply raw budget u, u.trace = w.trace ++ [.exchanged name argument budget (.ok raw)] →
      FrameReply.parse raw id count = some reply → Q reply u)
    (herror : ∀ e u, Fell name w.trace u.trace → (u.trace = w.trace → Unsent errors e) → E e u) :
    wp (exchangeReply errors id count name argument deadline) Q E w := by
  rw [exchangeReply, wp_bind]
  refine exchangeUntil_spec (fun raw budget u hu => ?_) herror
  cases hparse : FrameReply.parse raw id count with
  | some reply => exact hok reply raw budget u hu hparse
  | none =>
    refine herror _ _ (.inr ⟨_, _, _, hu⟩) fun hsame => ?_
    rw [hu] at hsame
    simp at hsame

theorem stopExpired_spec {stop : Option ℕ} {Q : Bool → Traced (Scene (Answer ε) Unit) (Deed ε) → Prop}
    {E : Halt ε → Traced (Scene (Answer ε) Unit) (Deed ε) → Prop} (hok : ∀ b u, u.trace = w.trace → Q b u)
    (hcut : ∀ u, u.trace = w.trace → E .cut u) : wp (stopExpired stop) Q E w := by
  cases stop with
  | none => exact hok false w rfl
  | some deadline =>
    rw [stopExpired, wp_bind]
    exact wp_ask (fun now u hu => hok _ u hu) hcut

/-! ## Between two rounds -/

/-- What the deeds are between two rounds, with the last reply. -/
structure Polling (id : String) (count : ℕ) (deeds : List (Deed ε)) (reply : FrameReply) (stop : Option ℕ) : Prop where
  sent : ∃ rest, commands deeds = "framebegin" :: rest ∧ (∀ name ∈ rest, name = "framepoll" ∨ name = "framecancel") ∧
    rest.count "framecancel" = if stop.isSome then 1 else 0
  latest : ∃ earlier, reports id count deeds = earlier ++ [reply]
  sorted : (reports id count deeds).Pairwise (·.completed ≤ ·.completed)
  claimed : (claims deeds).getLast? = some true → ∃ r ∈ reports id count deeds, r.terminal
  requested : reply.requested = count
  agrees : reply.Agrees

/-- What the deeds are wherever a run ends that has sent something. -/
structure Safe (id : String) (count : ℕ) (deeds : List (Deed ε)) : Prop where
  begins : ∃ rest, commands deeds = "framebegin" :: rest ∧ "framebegin" ∉ rest
  cancels : (commands deeds).count "framecancel" ≤ 1
  finishes : "framefinish" ∉ commands deeds ∨ ∃ before finish after, deeds = before ++ finish :: after ∧
    finish.command? = some "framefinish" ∧ "framefinish" ∉ commands before ∧
    (∃ r ∈ reports id count before, r.terminal) ∧ ∀ name ∈ commands after, name = "frame"
  claimed : (claims deeds).getLast? = some true → ∃ r ∈ reports id count deeds, r.terminal

section polling
variable {deeds deeds' : List (Deed ε)} {reply next : FrameReply} {stop : Option ℕ} {name : String}

/-- The commands that may be sent between two rounds. -/
def Rounds (stop : Option ℕ) (name : String) : Prop := name = "framepoll" ∨ (name = "framecancel" ∧ stop = none)

theorem Polling.fell (h : Polling id count deeds reply stop) (hname : Rounds stop name) 
    (hfell : Fell name deeds deeds') : Safe id count deeds' := by
  obtain ⟨new, rfl, hnew, hclaims⟩ : ∃ new, deeds' = deeds ++ new ∧ (commands new = [] ∨ commands new = [name]) ∧
      claims new = [] := by
    rcases hfell with rfl | ⟨argument, budget, result, rfl⟩
    · exact ⟨[], (List.append_nil _).symm, .inl rfl, rfl⟩
    · exact ⟨_, rfl, .inr rfl, rfl⟩
  obtain ⟨rest, hsent, hrest, hcount⟩ := h.sent
  have hrest' : ∀ other ∈ rest ++ commands new, other = "framepoll" ∨ other = "framecancel" := by
    intro other hother
    rcases List.mem_append.mp hother with hother | hother
    · exact hrest other hother
    · rcases hnew with hnew | hnew
      · simp [hnew] at hother
      · rw [hnew, List.mem_singleton] at hother
        exact hother ▸ hname.imp_right And.left
  have hall : commands (deeds ++ new) = "framebegin" :: (rest ++ commands new) := by
    rw [commands_append, hsent, List.cons_append]
  refine ⟨⟨_, hall, ?_⟩, ?_, .inl ?_, ?_⟩
  · intro hmem
    simpa using hrest' _ hmem
  · have hcancel : (commands new).count "framecancel" ≤ if stop.isSome then 0 else 1 := by
      rcases hnew with hnew | hnew
      · simp [hnew]
      · rcases hname with rfl | ⟨rfl, rfl⟩
        · simp [hnew]
        · simp [hnew]
    rw [hall, List.count_cons_of_ne (by decide), List.count_append, hcount]
    split at hcancel
    · next hsome =>
      rw [if_pos hsome]
      omega
    · next hnone =>
      rw [if_neg hnone]
      omega
  · rw [hall, List.mem_cons]
    rintro (hbegin | hmem)
    · simp at hbegin
    · simpa using hrest' _ hmem
  · rw [claims_append, hclaims, List.append_nil, reports_append]
    intro hlast
    obtain ⟨r, hr, hterminal⟩ := h.claimed hlast
    exact ⟨r, List.mem_append_left _ hr, hterminal⟩

theorem Polling.safe (h : Polling id count deeds reply stop) : Safe id count deeds :=
  h.fell (.inl rfl) (.inl rfl)

theorem Polling.replied (h : Polling id count deeds reply stop) {stop' : Option ℕ} {argument raw : String} {budget : ℕ}
    (hparse : FrameReply.parse raw id count = some next) (hle : reply.completed ≤ next.completed)
    (hname : (name = "framepoll" ∧ stop' = stop) ∨ (name = "framecancel" ∧ stop = none ∧ stop'.isSome)) :
    Polling id count (deeds ++ [.exchanged name argument budget (.ok raw)]) next stop' := by
  obtain ⟨hrequested, hagrees⟩ := parse_ok hparse
  have hreports : reports id count [(.exchanged name argument budget (.ok raw) : Deed ε)] = [next] := by
    refine reports_exchanged ?_ hparse
    rcases hname with ⟨rfl, -⟩ | ⟨rfl, -⟩
    · decide
    · decide
  obtain ⟨rest, hsent, hrest, hcount⟩ := h.sent
  obtain ⟨earlier, hlatest⟩ := h.latest
  refine ⟨⟨rest ++ [name], ?_, ?_, ?_⟩, ⟨_, by rw [reports_append, hreports]⟩, ?_, ?_, hrequested, hagrees⟩
  · rw [commands_append, hsent, commands_exchanged, List.cons_append]
  · intro other hother
    rcases List.mem_append.mp hother with hother | hother
    · exact hrest other hother
    · rw [List.mem_singleton] at hother
      rw [hother]
      exact hname.imp And.left And.left
  · rw [List.count_append, hcount]
    rcases hname with ⟨rfl, rfl⟩ | ⟨rfl, rfl, hstop⟩
    · simp
    · simp [hstop]
  · rw [reports_append, hreports, List.pairwise_append]
    refine ⟨h.sorted, List.pairwise_singleton _ _, ?_⟩
    intro a ha b hb
    rw [List.mem_singleton] at hb
    subst hb
    have hsorted := h.sorted
    rw [hlatest, List.pairwise_append] at hsorted
    rw [hlatest] at ha
    rcases List.mem_append.mp ha with ha | ha
    · exact Nat.le_trans (hsorted.2.2 a ha reply (List.mem_singleton_self _)) hle
    · rw [List.mem_singleton] at ha
      rwa [ha]
  · rw [claims_append, claims_exchanged, List.append_nil, reports_append]
    intro hlast
    obtain ⟨r, hr, hterminal⟩ := h.claimed hlast
    exact ⟨r, List.mem_append_left _ hr, hterminal⟩

theorem Polling.claim (h : Polling id count deeds reply stop) :
    Polling id count (deeds ++ [.setFrozen reply.terminal]) reply stop := by
  obtain ⟨earlier, hlatest⟩ := h.latest
  have hreports : reports id count (deeds ++ [.setFrozen reply.terminal]) = reports id count deeds := by simp
  refine ⟨?_, ?_, ?_, ?_, h.requested, h.agrees⟩
  · rw [commands_append, commands_setFrozen, List.append_nil]
    exact h.sent
  · rw [hreports]
    exact h.latest
  · rw [hreports]
    exact h.sorted
  · rw [hreports]
    intro hlast
    refine ⟨reply, ?_, ?_⟩
    · rw [hlatest]
      exact List.mem_append_right _ (List.mem_singleton_self _)
    · simpa using hlast

theorem Polling.finishing (h : Polling id count deeds reply stop) (hterminal : reply.terminal) {finish : Deed ε}
    {after : List (Deed ε)} (hfinish : finish.command? = some "framefinish")
    (hafter : ∀ name ∈ commands after, name = "frame") : Safe id count (deeds ++ finish :: after) := by
  obtain ⟨rest, hsent, hrest, hcount⟩ := h.sent
  obtain ⟨earlier, hlatest⟩ := h.latest
  have hreported : reply ∈ reports id count deeds := by
    rw [hlatest]
    exact List.mem_append_right _ (List.mem_singleton_self _)
  have hall : commands (deeds ++ finish :: after) = "framebegin" :: (rest ++ "framefinish" :: commands after) := by
    rw [commands_append, hsent, commands, List.filterMap_cons_some hfinish]
    rfl
  have hnot : ∀ {name}, name ≠ "frame" → name ∉ commands after := fun hne hmem => hne (hafter _ hmem)
  refine ⟨⟨_, hall, ?_⟩, ?_, .inr ⟨deeds, finish, after, rfl, hfinish, ?_, ⟨reply, hreported, hterminal⟩, hafter⟩,
    fun _ => ⟨reply, ?_, hterminal⟩⟩
  · rw [List.mem_append, List.mem_cons]
    rintro (hmem | hfirst | hmem)
    · simpa using hrest _ hmem
    · simp at hfirst
    · exact hnot (by decide) hmem
  · rw [hall, List.count_cons_of_ne (by decide), List.count_append, List.count_cons_of_ne (by decide),
      List.count_eq_zero.mpr (hnot (by decide)), hcount]
    split <;> omega
  · rw [hsent, List.mem_cons]
    rintro (hfirst | hmem)
    · simp at hfirst
    · simpa using hrest _ hmem
  · rw [reports_append]
    exact List.mem_append_left _ hreported

end polling

/-! ## The end of an operation -/

/-- What is known of an operation that returned a value. -/
structure Returned (id : String) (count : ℕ) (value : Json) (deeds : List (Deed ε)) (reply : FrameReply)
    (reason : Reason) (frame : ℕ) : Prop where
  value : value = frameValue id count reply reason frame
  finishes : ∃ before argument budget raw after earlier,
    deeds = before ++ .exchanged "framefinish" argument budget (.ok raw) :: after ∧
      reports id count before = earlier ++ [reply] ∧ FrameReply.parse raw id count = some reply ∧
      commands after = ["frame"]
  sorted : (reports id count deeds).Pairwise (·.completed ≤ ·.completed)
  greatest : ∀ r ∈ reports id count deeds, r.completed ≤ reply.completed
  terminal : reply.terminal
  agrees : reply.Agrees
  requested : reply.requested = count
  reason : reason = .none ↔ reply.reason = .none
  frozen : (claims deeds).getLast? = some true

section finish
variable {deeds : List (Deed ε)} {reply : FrameReply} {stop : Option ℕ}

theorem Polling.returned (h : Polling id count deeds reply stop) (hterminal : reply.terminal) {reason : Reason}
    {frame : ℕ} {argument argument' raw raw' : String} {budget budget' : ℕ}
    (hparse : FrameReply.parse raw id count = some reply) (hreason : reason = .none ↔ reply.reason = .none) :
    Returned id count (frameValue id count reply reason frame)
      (deeds ++ .exchanged "framefinish" argument budget (.ok raw) ::
        [.exchanged "frame" argument' budget' (.ok raw'), .setFrozen true]) reply reason frame := by
  obtain ⟨earlier, hlatest⟩ := h.latest
  have hsorted := h.sorted
  have hreports : reports id count (deeds ++ .exchanged "framefinish" argument budget (.ok raw) ::
      [.exchanged "frame" argument' budget' (.ok raw'), .setFrozen true]) = reports id count deeds ++ [reply] := by
    rw [reports_append]
    congr 1
    simp [reports, Deed.report?, hparse]
  have hgreatest : ∀ r ∈ reports id count deeds, r.completed ≤ reply.completed := by
    intro r hr
    rw [hlatest, List.pairwise_append] at hsorted
    rw [hlatest, List.mem_append, List.mem_singleton] at hr
    rcases hr with hr | rfl
    · exact hsorted.2.2 r hr reply (List.mem_singleton_self _)
    · exact Nat.le_refl _
  refine ⟨rfl, ⟨deeds, argument, budget, raw, _, earlier, rfl, hlatest, hparse, rfl⟩, ?_, ?_, hterminal, h.agrees,
    h.requested, hreason, ?_⟩
  · rw [hreports, List.pairwise_append]
    refine ⟨hsorted, List.pairwise_singleton _ _, ?_⟩
    intro r hr r' hr'
    rw [List.mem_singleton] at hr'
    exact hr' ▸ hgreatest r hr
  · rw [hreports]
    intro r hr
    rcases List.mem_append.mp hr with hr | hr
    · exact hgreatest r hr
    · rw [List.mem_singleton] at hr
      exact hr ▸ Nat.le_refl _
  · rw [claims_append]
    exact List.getLast?_concat

theorem finish_spec {deadline : ℕ} {hostDeadline : Bool} (h : Polling id count w.trace reply stop)
    (hterminal : reply.terminal) : wp (finish errors id count deadline reply stop hostDeadline)
      (fun v u => Safe id count u.trace ∧ ∃ reply reason frame, Returned id count v u.trace reply reason frame)
      (fun _ u => Safe id count u.trace) w := by
  have hsafe : ∀ {u : Traced (Scene (Answer ε) Unit) (Deed ε)} {finish : Deed ε} {after : List (Deed ε)},
      u.trace = w.trace ++ finish :: after → finish.command? = some "framefinish" →
      (∀ name ∈ commands after, name = "frame") → Safe id count u.trace := by
    intro u finish after hu hfinish hafter
    rw [hu]
    exact h.finishing hterminal hfinish hafter
  rw [finish, wp_bind]
  refine exchangeReply_spec (fun finished raw budget u hu hparse => ?_) (fun e u hu _ => ?_)
  · by_cases hsame : finished = reply
    · rw [if_neg (not_not_intro hsame), wp_bind]
      subst hsame
      refine exchangeUntil_spec (fun raw' budget' v hv => ?_) (fun e v hv _ => ?_)
      · have hv' : v.trace = w.trace ++ .exchanged "framefinish" id budget (.ok raw) ::
            [.exchanged "frame" "" budget' (.ok raw')] := by
          rw [hv, hu, List.append_assoc, List.singleton_append]
        have hfine := hsafe hv' rfl (by simp [commands, Deed.command?])
        cases hframe : InputMovie.parseU64 raw'.toList with
        | none => exact hfine
        | some frame =>
          dsimp only
          rw [wp_bind]
          refine stopExpired_spec (fun expired x hx => ?_) (fun x hx => hx ▸ hfine)
          cases expired with
          | true =>
            show Safe id count x.trace
            rwa [hx]
          | false =>
            have hx' : x.trace ++ [.setFrozen true] = w.trace ++ .exchanged "framefinish" id budget (.ok raw) ::
                [.exchanged "frame" "" budget' (.ok raw'), .setFrozen true] := by
              rw [hx, hv', List.append_assoc]
              rfl
            show Safe id count (x.trace ++ [.setFrozen true]) ∧ ∃ reply reason frame,
              Returned id count _ (x.trace ++ [.setFrozen true]) reply reason frame
            rw [hx']
            refine ⟨h.finishing hterminal rfl (by simp [commands, Deed.command?]), finished, _, frame,
              h.returned hterminal hparse ?_⟩
            split
            · next hcancelled => simp [hcancelled.2]
            · rfl
      · rcases hv with hv | ⟨argument, budget', result, hv⟩
        · exact hsafe (hv.trans hu) rfl nofun
        · refine hsafe (by rw [hv, hu, List.append_assoc, List.singleton_append]) rfl ?_
          simp [commands, Deed.command?]
    · rw [if_pos hsame]
      exact hsafe hu rfl nofun
  · rcases hu with hu | ⟨argument, budget, result, hu⟩
    · rw [hu]
      exact h.safe
    · exact hsafe hu rfl nofun

end finish

/-! ## Runs -/

section rounds
variable {reply : FrameReply} {stop : Option ℕ} {deadline : ℕ}

theorem observeStop_spec {hostDeadline : Bool} (h : Polling id count w.trace reply stop) :
    wp (observeStop errors id count deadline reply stop hostDeadline)
      (fun out u => Polling id count u.trace out.1 out.2.1) (fun _ u => Safe id count u.trace) w := by
  have hstill : ∀ {u : Traced (Scene (Answer ε) Unit) (Deed ε)}, u.trace = w.trace → Safe id count u.trace :=
    fun hu => hu ▸ h.safe
  rw [observeStop, wp_bind]
  refine wp_ask (fun now u hu => ?_) (fun u hu => hstill hu)
  cases stop with
  | some deadline =>
    show Polling id count u.trace reply (some deadline)
    rwa [hu]
  | none =>
    dsimp only
    rw [wp_bind]
    refine wp_ask (fun cancelled v hv => ?_) (fun v hv => hstill (hv.trans hu))
    split
    · rw [wp_bind]
      refine wp_ask (fun cancelledAt x hx => ?_) (fun x hx => hstill (hx.trans (hv.trans hu)))
      have hx' : x.trace = w.trace := hx.trans (hv.trans hu)
      rw [wp_bind]
      refine exchangeReply_spec (fun next raw budget y hy hparse => ?_) (fun e y hy _ => ?_)
      · rw [hx'] at hy
        by_cases hback : next.completed < reply.completed
        · rw [if_pos hback]
          show Safe id count y.trace
          rw [hy]
          exact h.fell (.inr ⟨rfl, rfl⟩) (.inr ⟨_, _, _, rfl⟩)
        · rw [if_neg hback]
          show Polling id count y.trace next _
          rw [hy]
          exact h.replied hparse (Nat.le_of_not_lt hback) (.inr ⟨rfl, rfl, rfl⟩)
      · rw [hx'] at hy
        exact h.fell (.inr ⟨rfl, rfl⟩) hy
    · show Polling id count v.trace reply none
      rwa [hv, hu]

theorem rounds_spec {n : ℕ} {hostDeadline : Bool} (h : Polling id count w.trace reply stop) :
    wp (rounds errors id count deadline n reply stop hostDeadline)
      (fun v u => Safe id count u.trace ∧ ∃ reply reason frame, Returned id count v u.trace reply reason frame)
      (fun _ u => Safe id count u.trace) w := by
  induction n generalizing w reply stop hostDeadline with
  | zero => exact h.safe
  | succ n ih =>
    rw [rounds, wp_bind]
    refine wp_mono (observeStop_spec h) ?_ (fun _ _ hu => hu)
    rintro ⟨reply', stop', hostDeadline'⟩ u hu
    dsimp only at hu ⊢
    rw [wp_bind]
    refine stopExpired_spec (fun expired v hv => ?_) (fun v hv => hv ▸ hu.safe)
    rw [← hv] at hu
    cases expired with
    | true => exact hu.safe
    | false =>
      rw [if_neg Bool.false_ne_true]
      by_cases hterminal : reply'.terminal
      · rw [if_pos hterminal]
        exact finish_spec hu hterminal
      · rw [if_neg hterminal, wp_bind]
        refine stopExpired_spec (fun expired x hx => ?_) (fun x hx => hx ▸ hu.safe)
        rw [← hx] at hu
        cases expired with
        | true => exact hu.safe
        | false =>
          rw [if_neg Bool.false_ne_true, wp_bind]
          refine exchangeReply_spec (fun next raw budget y hy hparse => ?_) (fun e y hy _ => hu.fell (.inl rfl) hy)
          by_cases hback : next.completed < reply'.completed
          · rw [if_pos hback]
            exact hu.fell (.inl rfl) (.inr ⟨_, _, _, hy⟩)
          · rw [if_neg hback, wp_bind]
            refine wp_note (ih ?_)
            have hnext : Polling id count y.trace next stop' := by
              rw [hy]
              exact hu.replied hparse (Nat.le_of_not_lt hback) (.inl ⟨rfl, rfl⟩)
            exact hnext.claim

theorem run_spec {maxRounds : ℕ} (hw : w.trace = []) : wp (run errors id count maxRounds)
    (fun v u => Safe id count u.trace ∧ ∃ reply reason frame, Returned id count v u.trace reply reason frame)
    (fun e u => (u.trace = [] ∧ Unsent errors e) ∨ Safe id count u.trace) w := by
  have hbegun : ∀ {argument budget result},
      Safe id count [(.exchanged "framebegin" argument budget result : Deed ε)] := by
    intro argument budget result
    refine ⟨⟨[], rfl, List.not_mem_nil⟩, ?_, .inl ?_, nofun⟩
    · simp
    · simp
  rw [run, wp_bind]
  refine wp_ask (fun now u hu => ?_) (fun u hu => .inl ⟨hu.trans hw, .inl rfl⟩)
  rw [wp_bind]
  refine exchangeReply_spec (fun reply raw budget v hv hparse => ?_) (fun e v hv hunsent => ?_)
  · rw [hu, hw, List.nil_append] at hv
    split
    · refine .inr ?_
      rw [hv]
      exact hbegun
    · rw [wp_bind]
      refine wp_note (wp_mono (rounds_spec ?_) (fun _ _ h => h) (fun _ _ h => .inr h))
      obtain ⟨hrequested, hagrees⟩ := parse_ok hparse
      have hreports : reports id count [(.exchanged "framebegin" (id ++ ":" ++ toString count ++ ":240000") budget
          (.ok raw) : Deed ε)] = [reply] := reports_exchanged (by decide) hparse
      dsimp only
      rw [hv]
      refine ⟨⟨[], rfl, nofun, rfl⟩, ⟨[], ?_⟩, ?_, nofun, hrequested, hagrees⟩
      · rw [reports_append, hreports, reports_setFrozen]
        rfl
      · rw [reports_append, hreports, reports_setFrozen]
        exact List.pairwise_singleton _ _
  · rw [hu, hw] at hv hunsent
    rcases hv with hv | ⟨argument, budget, result, hv⟩
    · exact .inl ⟨hv, hunsent hv⟩
    · refine .inr ?_
      rw [hv]
      exact hbegun

end rounds

/-- Whatever the clock, the cancellation and the host do: an operation is begun at most once and before everything else,
unless its deadline has passed even then; and a value is what the release has confirmed. -/
theorem owned_frame_operation (errors : Errors ε) (id : String) (count maxRounds : ℕ) (script : List (Answer ε)) :
    ((traceOf (run errors id count maxRounds) ⟨script, ()⟩ = [] ∧
        ∃ e, outcomeOf (run errors id count maxRounds) ⟨script, ()⟩ = .error e ∧ Unsent errors e) ∨
      Safe id count (traceOf (run errors id count maxRounds) ⟨script, ()⟩)) ∧
    ∀ v, outcomeOf (run errors id count maxRounds) ⟨script, ()⟩ = .ok v → ∃ reply reason frame,
      Returned id count v (traceOf (run errors id count maxRounds) ⟨script, ()⟩) reply reason frame ∧
        v.get "completed" = some (.nat reply.completed) ∧ reply.completed ≤ count ∧
        v.get "status" = some (.str reply.phase.text) ∧
        (reply.phase = .completed → reply.completed = count ∧ v.get "reason" = none) ∧
        (reply.phase = .interrupted → v.get "reason" = some (.str reason.text)) := by
  have hspec := @run_spec ε errors id count ⟨⟨script, ()⟩, []⟩ maxRounds rfl
  unfold traceOf outcomeOf after
  unfold wp at hspec
  cases hrun : run errors id count maxRounds ⟨⟨script, ()⟩, []⟩ with
  | error e u =>
    rw [hrun] at hspec
    exact ⟨hspec.imp_left fun ⟨htrace, hunsent⟩ => ⟨htrace, e, rfl, hunsent⟩, nofun⟩
  | ok v u =>
    rw [hrun] at hspec
    obtain ⟨hsafe, reply, reason, frame, hreturned⟩ := hspec
    refine ⟨.inr hsafe, fun v' hv => ?_⟩
    obtain rfl : v = v' := Except.ok.inj hv
    obtain ⟨hle, hcompleted, -, hinterrupted⟩ := hreturned.agrees
    have hvalue := hreturned.value
    refine ⟨reply, reason, frame, hreturned, ?_, hreturned.requested ▸ hle, ?_, fun hphase => ⟨?_, ?_⟩,
      fun hphase => ?_⟩
    · rw [hvalue]
      rfl
    · rw [hvalue]
      by_cases hreason : reason = .none
      · simp [frameValue, Json.get, OrdMap.find?, hreason]
      · simp [frameValue, Json.get, OrdMap.find?, hreason]
    · rw [(hcompleted hphase).1, hreturned.requested]
    · have hreason := hreturned.reason.mpr (hcompleted hphase).2
      rw [hvalue]
      simp [frameValue, Json.get, OrdMap.find?, hreason]
    · have hreason : reason ≠ .none := fun h => hinterrupted hphase (hreturned.reason.mp h)
      rw [hvalue]
      simp [frameValue, Json.get, OrdMap.find?, hreason]

def plainErrors : Errors String := ⟨fun text => text, fun text => text⟩

def twoFrames : List (Answer String) :=
  [.now 0, .now 0, .exchange (.ok "FRAME|child|running|0|2|none"), .now 1, .cancellation none, .now 2,
    .exchange (.ok "FRAME|child|completed|2|2|none"), .now 3, .cancellation none, .now 4,
    .exchange (.ok "FRAME|child|completed|2|2|none"), .now 5, .exchange (.ok "7")]

theorem owned_frame_operation_two : ∃ v reply reason frame,
    Returned "child" 2 v (traceOf (run plainErrors "child" 2 2) ⟨twoFrames, ()⟩) reply reason frame ∧
      v.get "completed" = some (.nat 2) := by
  have hrun : outcomeOf (run plainErrors "child" 2 2) ⟨twoFrames, ()⟩ =
      .ok (frameValue "child" 2 ⟨.completed, 2, 2, .none⟩ .none 7) := by
    decide +kernel
  obtain ⟨reply, reason, frame, hreturned, -⟩ := (owned_frame_operation plainErrors "child" 2 2 twoFrames).2 _ hrun
  exact ⟨_, reply, reason, frame, hreturned, rfl⟩

/-- The deadline can pass before the first command: then none is sent. -/
theorem late_operation_sends_nothing :
    (commands (traceOf (run plainErrors "child" 120 5) ⟨[.now 0, .now 240000000000], ()⟩)).count "framebegin" ≠ 1 ∧
      outcomeOf (run plainErrors "child" 120 5) ⟨[.now 0, .now 240000000000], ()⟩ =
        .error (.failed "native frame exchange deadline expired") := by
  decide +kernel

end Emucap.Mame
