import Emucap.Bundle.EventStream
import Emucap.Lib.Text

/-!
# Which streams are accepted

A file is read line by line, however the reads cut it up: as long as the limits hold, the loop over the file is
the loop over its lines (`acceptAll`), and a last line without a newline is left over. So a file is accepted just
where its lines are, one after the other.
-/

namespace Emucap.Bundle

open Emucap.Lib

/-! ## Reading a line -/

section reading
variable {lineNumber : ℕ} {limits : RecordingLimits}

structure LimitsFit (limits : RecordingLimits) : Prop where
  line : limits.maxLineBytes < 2 ^ 64
  bytes : limits.maxBytes < 2 ^ 64
  events : limits.maxEvents < 2 ^ 64

theorem checkTake_of_le (hfits : LimitsFit limits) {lineLen take physicalBytes : ℕ}
    (hline : lineLen + take ≤ limits.maxLineBytes) (htotal : physicalBytes + take ≤ limits.maxBytes) :
    checkTake lineNumber limits lineLen take physicalBytes = .ok (physicalBytes + take) := by
  have hline' := hfits.line
  have hbytes' := hfits.bytes
  unfold checkTake updateTotal
  simp only [bind_eq_ok, orError_eq_ok, require_eq_ok, exists_const, checkedAdd_eq_some]
  exact ⟨_, ⟨by omega, rfl⟩, hline, _, ⟨by omega, rfl⟩, htotal, rfl⟩

theorem lineTake_split {buffer more text after : List UInt8} (h : buffer ++ more = text ++ newline :: after)
    (htext : newline ∉ text) :
    (buffer.take (lineTake buffer) = text ++ [newline] ∧ lineTake buffer = text.length + 1) ∨
      ∃ text', text = buffer ++ text' ∧ lineTake buffer = buffer.length := by
  have hle := lineTake_le buffer
  rcases take_lineTake buffer with ⟨found, hfound, htake⟩ | ⟨hnone, hall⟩
  · have hbuffer : buffer = found ++ newline :: buffer.drop (lineTake buffer) := by
      have hsplit := List.take_append_drop (lineTake buffer) buffer
      rw [htake, List.append_assoc] at hsplit
      exact hsplit.symm
    rw [hbuffer, List.append_assoc, List.cons_append] at h
    obtain ⟨rfl, -⟩ := append_cons_inj h hfound htext
    refine .inl ⟨htake, ?_⟩
    have hlength := congrArg List.length htake
    rw [List.length_take, Nat.min_eq_left hle, List.length_append, List.length_singleton] at hlength
    exact hlength
  · refine .inr ?_
    rcases List.append_eq_append_iff.mp h with ⟨text', rfl, -⟩ | ⟨more', rfl, hmore⟩
    · exact ⟨text', rfl, hall⟩
    · cases more' with
      | nil => exact ⟨[], by simp, hall⟩
      | cons b more' =>
        rw [List.cons_append, List.cons.injEq] at hmore
        rw [← hmore.1] at hnone
        exact absurd (List.mem_append_right _ List.mem_cons_self) hnone

theorem readBoundedLine_whole (hfits : LimitsFit limits) {line text after : List UInt8} {r : EventReader}
    (hremaining : r.remaining = text ++ newline :: after) (htext : newline ∉ text)
    (hline : line.length + text.length + 1 ≤ limits.maxLineBytes)
    (htotal : r.physicalBytes + text.length + 1 ≤ limits.maxBytes) :
    ∃ r', readBoundedLine lineNumber limits line r = .ok (some (line ++ (text ++ [newline]), true), r') ∧
      Consumed r r' (text ++ [newline]) := by
  fun_induction readBoundedLine lineNumber limits line r generalizing text with
  | case1 => simp [EventReader.remaining] at hremaining
  | case2 => simp [EventReader.remaining] at hremaining
  | case3 line available reads fault physicalBytes hashed ih =>
    obtain ⟨r', hread, hconsumed⟩ := ih hremaining htext hline htotal
    exact ⟨r', hread, hconsumed.remaining, hconsumed.hashed, hconsumed.physicalBytes, hconsumed.fault⟩
  | case4 line b bs reads fault physicalBytes hashed take e =>
    rename_i htake
    have hbuffer : (b :: bs) ++ reads.flatten = text ++ newline :: after := hremaining
    have htotal' : physicalBytes + text.length + 1 ≤ limits.maxBytes := htotal
    have hle : lineTake (b :: bs) ≤ text.length + 1 := by
      rcases lineTake_split hbuffer htext with ⟨-, hlength⟩ | ⟨text', rfl, hlength⟩
      · exact hlength.le
      · rw [hlength, List.length_append]
        omega
    rw [checkTake_of_le hfits (by omega) (by omega)] at htake
    cases htake
  | case5 line b bs reads fault physicalBytes hashed take total htake r line' =>
    rename_i hlast
    have hbuffer : (b :: bs) ++ reads.flatten = text ++ newline :: after := hremaining
    rcases lineTake_split hbuffer htext with ⟨htaken, -⟩ | ⟨text', rfl, hlength⟩
    · have hline' : line' = line ++ (text ++ [newline]) := by
        rw [← htaken]
      rw [hline', ← htaken]
      exact ⟨r, rfl, consumed_take htake⟩
    · -- the buffer has no newline, so the line does not end with one
      have hnone : newline ∉ b :: bs := fun hmem => htext (List.mem_append_left _ hmem)
      refine absurd (List.mem_of_getLast? ?_) hnone
      simp only [line', take, hlength, List.take_length] at hlast
      rwa [List.getLast?_append_of_ne_nil _ (List.cons_ne_nil _ _)] at hlast
  | case6 line b bs reads fault physicalBytes hashed take total htake r line' hlast =>
    rename_i ih
    have hbuffer : (b :: bs) ++ reads.flatten = text ++ newline :: after := hremaining
    have htotal' : physicalBytes + text.length + 1 ≤ limits.maxBytes := htotal
    rcases lineTake_split hbuffer htext with ⟨htaken, -⟩ | ⟨text', rfl, hlength⟩
    · refine absurd ?_ hlast
      simp only [line', take, htaken, ← List.append_assoc, List.getLast?_concat]
    · have hall : (b :: bs).take take = b :: bs := by
        rw [show take = (b :: bs).length from hlength, List.take_length]
      have hdrop : (b :: bs).drop take = [] := by
        rw [show take = (b :: bs).length from hlength, List.drop_length]
      have hnext : r.remaining = text' ++ newline :: after := by
        rw [List.append_assoc, List.append_cancel_left_eq] at hbuffer
        simp only [r, EventReader.remaining, hdrop, List.nil_append]
        exact hbuffer
      have hphysical : r.physicalBytes = physicalBytes + (b :: bs).length := by
        rw [← hlength]
        exact (checkTake_eq_ok htake).1
      have hlength' : line'.length = line.length + (b :: bs).length := by
        simp only [line', hall, List.length_append]
      rw [List.length_append] at hline htotal'
      obtain ⟨r', hread, hconsumed⟩ := ih hnext (fun hmem => htext (List.mem_append_right _ hmem))
        (by omega) (by omega)
      have hfirst : Consumed _ r ((b :: bs).take take) := consumed_take htake
      rw [hall] at hfirst
      refine ⟨r', ?_, ?_⟩
      · rw [hread]
        simp only [line', hall, List.append_assoc]
      · rw [List.append_assoc]
        exact hfirst.trans hconsumed

theorem readBoundedLine_rest (hfits : LimitsFit limits) {line rest : List UInt8} {r : EventReader}
    (hremaining : r.remaining = rest) (hrest : newline ∉ rest) (hline : newline ∉ line) (hfault : r.fault = none)
    (hlimit : line.length + rest.length ≤ limits.maxLineBytes)
    (htotal : r.physicalBytes + rest.length ≤ limits.maxBytes) :
    ∃ r', readBoundedLine lineNumber limits line r =
        .ok (if line ++ rest = [] then none else some (line ++ rest, false), r') ∧ Consumed r r' rest := by
  fun_induction readBoundedLine lineNumber limits line r generalizing rest with
  | case1 => cases hfault
  | case2 line physicalBytes hashed =>
    obtain rfl : [] = rest := hremaining
    rw [List.append_nil]
    exact ⟨_, rfl, Consumed.refl _⟩
  | case3 line available reads fault physicalBytes hashed ih =>
    obtain ⟨r', hread, hconsumed⟩ := ih hremaining hrest hline hfault hlimit htotal
    exact ⟨r', hread, hconsumed.remaining, hconsumed.hashed, hconsumed.physicalBytes, hconsumed.fault⟩
  | case4 line b bs reads fault physicalBytes hashed take e =>
    rename_i htake
    have hbuffer : (b :: bs) ++ reads.flatten = rest := hremaining
    have htotal' : physicalBytes + rest.length ≤ limits.maxBytes := htotal
    have hle : lineTake (b :: bs) ≤ rest.length := by
      have htaken := lineTake_le (b :: bs)
      rw [← hbuffer, List.length_append]
      omega
    rw [checkTake_of_le hfits (by omega) (by omega)] at htake
    cases htake
  | case5 line b bs reads fault physicalBytes hashed take total htake r line' =>
    rename_i hlast
    have hbuffer : (b :: bs) ++ reads.flatten = rest := hremaining
    have hmem : newline ∈ line ++ (b :: bs).take take := List.mem_of_getLast? hlast
    rcases List.mem_append.mp hmem with hmem | hmem
    · exact absurd hmem hline
    · rw [← hbuffer] at hrest
      exact absurd (List.mem_append_left _ (List.mem_of_mem_take hmem)) hrest
  | case6 line b bs reads fault physicalBytes hashed take total htake r line' hlast =>
    rename_i ih
    have hbuffer : (b :: bs) ++ reads.flatten = rest := hremaining
    have htotal' : physicalBytes + rest.length ≤ limits.maxBytes := htotal
    have hsplit : (b :: bs).take take ++ r.remaining = rest := by
      rw [← hbuffer]
      simp only [r, EventReader.remaining]
      rw [← List.append_assoc, List.take_append_drop]
    have hlength := congrArg List.length hsplit
    rw [List.length_append] at hlength
    have hphysical : r.physicalBytes = physicalBytes + ((b :: bs).take take).length := by
      rw [List.length_take, Nat.min_eq_left (lineTake_le _)]
      exact (checkTake_eq_ok htake).1
    rw [← hsplit, List.mem_append, not_or] at hrest
    have hline' : newline ∉ line' := by
      rw [List.mem_append, not_or]
      exact ⟨hline, hrest.1⟩
    have hlength' : line'.length = line.length + ((b :: bs).take take).length := List.length_append
    obtain ⟨r', hread, hconsumed⟩ := ih rfl hrest.2 hline' hfault (by omega) (by omega)
    refine ⟨r', ?_, ?_⟩
    · rw [hread, ← hsplit, ← List.append_assoc]
    · rw [← hsplit]
      exact (consumed_take htake).trans hconsumed

theorem readBoundedLine_le {line line' : List UInt8} {whole : Bool} {r r' : EventReader}
    (h : readBoundedLine lineNumber limits line r = .ok (some (line', whole), r')) :
    line' = line ∨ line'.length ≤ limits.maxLineBytes ∧ r'.physicalBytes ≤ limits.maxBytes := by
  fun_induction readBoundedLine lineNumber limits line r with
  | case1 => cases h
  | case2 line physicalBytes hashed =>
    refine .inl ?_
    simp only [Except.ok.injEq, Prod.mk.injEq] at h
    split_ifs at h with hempty
    · cases h.1
    · cases h.1
      rfl
  | case3 line available reads fault physicalBytes hashed ih => exact ih h
  | case4 => cases h
  | case5 line b bs reads fault physicalBytes hashed take total htake r line'' hlast =>
    obtain ⟨⟨hline', -⟩, hr⟩ : (line'' = line' ∧ true = whole) ∧ r = r' := by simpa using h
    obtain ⟨-, htotal, hline⟩ := checkTake_eq_ok htake
    rw [← hr, ← hline']
    refine .inr ⟨?_, htotal⟩
    rw [List.length_append, List.length_take, Nat.min_eq_left (lineTake_le _)]
    exact hline
  | case6 line b bs reads fault physicalBytes hashed take total htake r line'' hlast ih =>
    obtain ⟨-, htotal, hline⟩ := checkTake_eq_ok htake
    refine .inr ?_
    rcases ih h with heq | hlimits
    · -- nothing was read on
      obtain ⟨bytes, hconsumed, hresult⟩ := readBoundedLine_eq_ok h
      have hempty : bytes = [] := by
        rcases hresult with ⟨hnone, -, -⟩ | ⟨_, -, -, hsome⟩ | ⟨-, hsome, -⟩
        · cases hnone
        · rw [Option.some.injEq, Prod.mk.injEq, heq] at hsome
          exact List.self_eq_append_right.mp hsome.1
        · rw [Option.some.injEq, Prod.mk.injEq, heq] at hsome
          exact List.self_eq_append_right.mp hsome.1
      rw [heq, hconsumed.physicalBytes, hempty]
      refine ⟨?_, htotal⟩
      rw [List.length_append, List.length_take, Nat.min_eq_left (lineTake_le _)]
      exact hline
    · exact hlimits

theorem readBoundedLine_ne_nil {line line' : List UInt8} {whole : Bool} {r r' : EventReader}
    (h : readBoundedLine lineNumber limits line r = .ok (some (line', whole), r')) : line' ≠ [] := by
  fun_induction readBoundedLine lineNumber limits line r with
  | case1 => cases h
  | case2 line physicalBytes hashed =>
    simp only [Except.ok.injEq, Prod.mk.injEq] at h
    split_ifs at h with hempty
    · cases h.1
    · cases h.1
      exact hempty
  | case3 line available reads fault physicalBytes hashed ih => exact ih h
  | case4 => cases h
  | case5 line b bs reads fault physicalBytes hashed take total htake r line'' hlast =>
    obtain ⟨⟨hline', -⟩, -⟩ : (line'' = line' ∧ true = whole) ∧ r = r' := by simpa using h
    rw [← hline']
    rintro hnil
    rw [hnil] at hlast
    cases hlast
  | case6 line b bs reads fault physicalBytes hashed take total htake r line'' hlast ih => exact ih h

end reading

/-! ## The loop over the lines -/

section lines
variable (decode : List UInt8 → Except String EventEnvelope) (rules : StreamRules)

def acceptAll : StreamState → List (List UInt8) → EventCheck StreamState
  | st, [] => .ok st
  | st, line :: rest => do
    require st.stopEvent.isNone .eventAfterStop
    let event ← (decode line).mapError (.json st.lineNumber)
    let st ← rules.acceptEvent line event st
    acceptAll st rest

structure FitLines (limits : RecordingLimits) (lines : List (List UInt8)) (rest : List UInt8) : Prop where
  whole : ∀ line ∈ lines, WholeLine line ∧ line.length ≤ limits.maxLineBytes
  rest : newline ∉ rest ∧ rest.length ≤ limits.maxLineBytes

variable {decode rules}

theorem acceptAll_cons {st st' : StreamState} {line : List UInt8} {rest : List (List UInt8)} :
    acceptAll decode rules st (line :: rest) = .ok st' ↔
      st.stopEvent = none ∧ ∃ event next, decode line = .ok event ∧ rules.acceptEvent line event st = .ok next ∧
        acceptAll decode rules next rest = .ok st' := by
  simp only [acceptAll, bind_eq_ok, require_eq_ok, exists_const, mapError_eq_ok, Option.isNone_iff_eq_none]
  constructor
  · rintro ⟨hstop, event, hevent, next, hnext, hrest⟩
    exact ⟨hstop, event, next, hevent, hnext, hrest⟩
  · rintro ⟨hstop, event, next, hevent, hnext, hrest⟩
    exact ⟨hstop, event, hevent, next, hnext, hrest⟩

theorem acceptAll_append {st st' : StreamState} {lines more : List (List UInt8)} :
    acceptAll decode rules st (lines ++ more) = .ok st' ↔
      ∃ mid, acceptAll decode rules st lines = .ok mid ∧ acceptAll decode rules mid more = .ok st' := by
  induction lines generalizing st with
  | nil => simp [acceptAll]
  | cons line lines ih =>
    rw [List.cons_append, acceptAll_cons]
    simp only [acceptAll_cons, ih]
    constructor
    · rintro ⟨hstop, event, next, hevent, hnext, mid, hmid, hmore⟩
      exact ⟨mid, ⟨hstop, event, next, hevent, hnext, hmid⟩, hmore⟩
    · rintro ⟨mid, ⟨hstop, event, next, hevent, hnext, hmid⟩, hmore⟩
      exact ⟨hstop, event, next, hevent, hnext, mid, hmid, hmore⟩

theorem traverse_none {st : StreamState} {r r' : EventReader}
    (hread : readBoundedLine st.lineNumber rules.spec.limits [] r = .ok (none, r')) :
    traverse decode rules st r = .ok (st, false, r') := by
  unfold traverse
  split
  · next hread' =>
    rw [hread] at hread'
    cases hread'
  · next hread' =>
    rw [hread] at hread'
    cases hread'
    rfl
  · next hread' =>
    rw [hread] at hread'
    cases hread'

theorem traverse_rest {st : StreamState} {r r' : EventReader} {line : List UInt8}
    (hread : readBoundedLine st.lineNumber rules.spec.limits [] r = .ok (some (line, false), r'))
    (hstop : st.stopEvent = none) : traverse decode rules st r = .ok (st, true, r') := by
  unfold traverse
  split
  · next hread' =>
    rw [hread] at hread'
    cases hread'
  · next hread' =>
    rw [hread] at hread'
    cases hread'
  · next hread' =>
    rw [hread] at hread'
    cases hread'
    simp [hstop]

theorem traverse_line {st next : StreamState} {r r' : EventReader} {line : List UInt8} {event : EventEnvelope}
    (hread : readBoundedLine st.lineNumber rules.spec.limits [] r = .ok (some (line, true), r'))
    (hstop : st.stopEvent = none) (hevent : decode line = .ok event)
    (hnext : rules.acceptEvent line event st = .ok next) :
    traverse decode rules st r = traverse decode rules next r' := by
  rw [traverse]
  split
  · next hread' =>
    rw [hread] at hread'
    cases hread'
  · next hread' =>
    rw [hread] at hread'
    cases hread'
  · next hread' =>
    rw [hread] at hread'
    cases hread'
    simp [hstop, hevent, hnext]

theorem acceptAll_decoded {st st' : StreamState} {lines : List (List UInt8)}
    (h : acceptAll decode rules st lines = .ok st') :
    ∃ events : List EventEnvelope, lines.map decode = events.map Except.ok := by
  induction lines generalizing st with
  | nil => exact ⟨[], rfl⟩
  | cons line lines ih =>
    obtain ⟨-, event, next, hevent, -, hrest⟩ := (acceptAll_cons).mp h
    obtain ⟨events, hdecoded⟩ := ih hrest
    exact ⟨event :: events, by rw [List.map_cons, List.map_cons, hevent, hdecoded]⟩

theorem acceptAll_anchor {st st' : StreamState} {lines : List (List UInt8)} (hanchor : rules.anchor = none)
    (h : acceptAll decode rules st lines = .ok st') : st'.observationStartMatched = st.observationStartMatched := by
  induction lines generalizing st with
  | nil =>
    obtain rfl := Except.ok.inj h
    rfl
  | cons line lines ih =>
    obtain ⟨-, event, next, -, hnext, hrest⟩ := (acceptAll_cons).mp h
    rw [ih hrest]
    simp only [StreamRules.acceptEvent, bind_eq_ok, StreamRules.checkAnchor, hanchor] at hnext
    obtain ⟨matched, hmatched, st₁, hline, contract, -, st₂, hclocks, u, -, st₃, horder, st₄, hcount, lineNumber, -,
      hnext⟩ := hnext
    obtain rfl := Except.ok.inj hmatched
    obtain rfl := Except.ok.inj hnext
    have hst₁ := (StreamRules.countLine_eq_ok hline).2
    have hst₂ := (StreamRules.checkClocks_eq_ok hclocks).2
    have hst₃ := (StreamRules.checkFrameOrder_eq_ok horder).2.2
    have hst₄ := (StreamRules.countEvent_eq_ok hcount).2
    show st₄.observationStartMatched = _
    rw [hst₄, hst₃, hst₂, hst₁]

theorem acceptAll_records {st st' : StreamState} {lines : List (List UInt8)}
    (h : acceptAll decode rules st lines = .ok st') :
    st'.records = st.records + lines.length ∧ (lines ≠ [] → st'.records ≤ rules.spec.limits.maxEvents) := by
  induction lines generalizing st with
  | nil =>
    obtain rfl := Except.ok.inj h
    exact ⟨rfl, fun hne => absurd rfl hne⟩
  | cons line lines ih =>
    obtain ⟨-, event, next, -, hnext, hrest⟩ := (acceptAll_cons).mp h
    obtain ⟨hrecords, hlimit⟩ := ih hrest
    have hone : next.records = st.records + 1 ∧ next.records ≤ rules.spec.limits.maxEvents := by
      simp only [StreamRules.acceptEvent, bind_eq_ok] at hnext
      obtain ⟨matched, -, st₁, hline, contract, -, st₂, hclocks, u, -, st₃, horder, st₄, hcount, lineNumber, -,
        hnext⟩ := hnext
      obtain rfl := Except.ok.inj hnext
      have hle : st₁.records ≤ rules.spec.limits.maxEvents := by
        simp only [StreamRules.countLine, bind_eq_ok, require_eq_ok, exists_const] at hline
        obtain ⟨-, _, -, records, -, hle, _, -, hst₁⟩ := hline
        obtain rfl := Except.ok.inj hst₁
        exact hle
      obtain ⟨-, hst₁⟩ := StreamRules.countLine_eq_ok hline
      have hst₂ := (StreamRules.checkClocks_eq_ok hclocks).2
      have hst₃ := (StreamRules.checkFrameOrder_eq_ok horder).2.2
      have hst₄ := (StreamRules.countEvent_eq_ok hcount).2
      have hsame : st₄.records = st₁.records := by rw [hst₄, hst₃, hst₂]
      show st₄.records = st.records + 1 ∧ st₄.records ≤ _
      rw [hsame]
      exact ⟨by rw [hst₁], hle⟩
    refine ⟨by rw [hrecords, hone.1, List.length_cons]; omega, fun _ => ?_⟩
    by_cases hempty : lines = []
    · subst hempty
      rw [hrecords]
      exact hone.2
    · exact hlimit hempty

theorem traverse_of_acceptAll (hfits : LimitsFit rules.spec.limits) {st st' : StreamState} {r : EventReader}
    {lines : List (List UInt8)} {rest : List UInt8} (haccept : acceptAll decode rules st lines = .ok st')
    (hremaining : r.remaining = lines.flatten ++ rest) (hfault : r.fault = none)
    (hlines : FitLines rules.spec.limits lines rest)
    (htotal : r.physicalBytes + (lines.flatten ++ rest).length ≤ rules.spec.limits.maxBytes)
    (hstop : rest ≠ [] → st'.stopEvent = none) :
    ∃ r', traverse decode rules st r = .ok (st', decide (rest ≠ []), r') ∧
      Consumed r r' (lines.flatten ++ rest) := by
  induction lines generalizing st r with
  | nil =>
    obtain rfl : st = st' := Except.ok.inj haccept
    obtain ⟨r', hread, hconsumed⟩ := @readBoundedLine_rest st.lineNumber _ hfits [] rest r hremaining hlines.rest.1
      List.not_mem_nil hfault (by simpa using hlines.rest.2) (by simpa using htotal)
    refine ⟨r', ?_, hconsumed⟩
    rw [List.nil_append] at hread
    by_cases hempty : rest = []
    · rw [if_pos hempty] at hread
      simp [traverse_none hread, hempty]
    · rw [if_neg hempty] at hread
      simp [traverse_rest hread (hstop hempty), hempty]
  | cons line lines ih =>
    obtain ⟨hnone, event, next, hevent, hnext, hmore⟩ := (acceptAll_cons).mp haccept
    obtain ⟨⟨text, htext, rfl⟩, hlength⟩ := hlines.whole line List.mem_cons_self
    simp only [List.flatten_cons, List.append_assoc, List.singleton_append, List.length_append,
      List.length_cons, List.length_nil] at hremaining htotal hlength
    obtain ⟨r', hread, hconsumed⟩ := @readBoundedLine_whole st.lineNumber _ hfits [] text _ r hremaining htext
      (by simpa using hlength) (by omega)
    have hremaining' : r'.remaining = lines.flatten ++ rest := by
      have hboth := hconsumed.remaining
      rw [hremaining, List.append_assoc, List.singleton_append, List.append_cancel_left_eq,
        List.cons_append, List.cons.injEq] at hboth
      exact hboth.2.symm
    have hphysical := hconsumed.physicalBytes
    rw [List.length_append, List.length_singleton] at hphysical
    obtain ⟨r'', htraverse, hconsumed'⟩ := ih hmore hremaining' (hconsumed.fault.trans hfault)
      ⟨fun line' hmem => hlines.whole line' (List.mem_cons_of_mem _ hmem), hlines.rest⟩
      (by rw [List.length_append]; omega)
    refine ⟨r'', ?_, ?_⟩
    · rw [List.nil_append] at hread
      rw [traverse_line hread hnone hevent hnext, htraverse]
    · rw [List.flatten_cons, List.append_assoc]
      exact hconsumed.trans hconsumed'

theorem acceptAll_of_traverse {st st' : StreamState} {r r' : EventReader} {partialLine : Bool}
    (h : traverse decode rules st r = .ok (st', partialLine, r')) :
    ∃ lines rest, acceptAll decode rules st lines = .ok st' ∧ r.remaining = lines.flatten ++ rest ∧
      FitLines rules.spec.limits lines rest ∧
      (lines.flatten ++ rest ≠ [] →
        r.physicalBytes + (lines.flatten ++ rest).length ≤ rules.spec.limits.maxBytes) ∧
      (partialLine = true ↔ rest ≠ []) ∧ (rest ≠ [] → st'.stopEvent = none) ∧ r.fault = none := by
  fun_induction traverse decode rules st r with
  | case1 => cases h
  | case2 st r r'' hread =>
    cases h
    obtain ⟨bytes, hconsumed, ⟨-, hempty, hend⟩ | ⟨_, -, -, hsome⟩ | ⟨-, hsome, -⟩⟩ := readBoundedLine_eq_ok hread
    · obtain rfl : bytes = [] := by simpa using hempty
      have hremaining := hconsumed.remaining
      rw [hend.remaining] at hremaining
      refine ⟨[], [], rfl, hremaining, ⟨List.forall_mem_nil _, List.not_mem_nil, Nat.zero_le _⟩, ?_, by simp,
        by simp, hconsumed.fault.symm.trans hend.fault⟩
      exact fun hne => absurd rfl hne
    · cases hsome
    · cases hsome
  | case3 => cases h
  | case4 st r line r'' hstop hread =>
    cases h
    have hle := readBoundedLine_le hread
    obtain ⟨bytes, hconsumed, ⟨hnone, -, -⟩ | ⟨_, -, -, hsome⟩ | ⟨hbytes, hsome, hend⟩⟩ :=
      readBoundedLine_eq_ok hread
    · cases hnone
    · cases hsome
    · obtain rfl : line = bytes := by simpa using hsome
      have hne := readBoundedLine_ne_nil hread
      have hremaining := hconsumed.remaining
      have hphysical := hconsumed.physicalBytes
      rw [hend.remaining, List.append_nil] at hremaining
      rcases hle with hnil | ⟨hline, htotal⟩
      · exact absurd hnil hne
      refine ⟨[], line, rfl, hremaining, ⟨List.forall_mem_nil _, hbytes, hline⟩, fun _ => ?_, by simp [hne],
        fun _ => by simpa using hstop, hconsumed.fault.symm.trans hend.fault⟩
      simp only [List.flatten_nil, List.nil_append]
      omega
  | case5 => cases h
  | case6 => cases h
  | case7 st r line whole r'' hread hstop hwhole event hdecode next haccept hlt ih =>
    have hle := readBoundedLine_le hread
    obtain ⟨bytes, hconsumed, ⟨hnone, -, -⟩ | ⟨text, hbytes, htext, hsome⟩ | ⟨-, hsome, -⟩⟩ :=
      readBoundedLine_eq_ok hread
    · cases hnone
    · obtain ⟨rfl, -⟩ : line = bytes ∧ whole = true := by simpa using hsome
      obtain ⟨lines, rest, haccepted, hremaining, hlines, htotal, hiff, hlast, hfault⟩ := ih h
      have hphysical := hconsumed.physicalBytes
      rcases hle with hnil | ⟨hline, hbytesLe⟩
      · rw [hbytes] at hnil
        simp at hnil
      refine ⟨line :: lines, rest, ?_, ?_, ⟨?_, hlines.rest⟩, fun _ => ?_, hiff, hlast,
        hconsumed.fault.symm.trans hfault⟩
      · exact (acceptAll_cons).mpr ⟨by simpa using hstop, event, next, hdecode, haccept, haccepted⟩
      · rw [hconsumed.remaining, hremaining, List.flatten_cons, List.append_assoc]
      · exact List.forall_mem_cons.mpr ⟨⟨⟨text, htext, hbytes⟩, hline⟩, hlines.whole⟩
      · rw [List.flatten_cons, List.append_assoc, List.length_append]
        by_cases hmore : lines.flatten ++ rest = []
        · rw [hmore]
          simp only [List.length_nil]
          omega
        · have hsum := htotal hmore
          omega
    · cases hsome
      exact absurd rfl hwhole

end lines

theorem lines_unique {lines lines' : List (List UInt8)} {rest rest' : List UInt8}
    (hlines : ∀ line ∈ lines, WholeLine line) (hrest : newline ∉ rest) (hlines' : ∀ line ∈ lines', WholeLine line)
    (hrest' : newline ∉ rest') (h : lines.flatten ++ rest = lines'.flatten ++ rest') :
    lines = lines' ∧ rest = rest' := by
  induction lines generalizing lines' with
  | nil =>
    cases lines' with
    | nil => exact ⟨rfl, h⟩
    | cons line' lines' =>
      obtain ⟨text, -, rfl⟩ := hlines' line' List.mem_cons_self
      rw [List.flatten_nil, List.nil_append] at h
      refine absurd ?_ hrest
      rw [h]
      simp
  | cons line lines ih =>
    obtain ⟨text, htext, rfl⟩ := hlines line List.mem_cons_self
    cases lines' with
    | nil =>
      rw [List.flatten_nil, List.nil_append] at h
      refine absurd ?_ hrest'
      rw [← h]
      simp
    | cons line' lines' =>
      obtain ⟨text', htext', rfl⟩ := hlines' line' List.mem_cons_self
      simp only [List.flatten_cons, List.append_assoc, List.cons_append] at h
      obtain ⟨rfl, hmore⟩ := append_cons_inj h htext htext'
      obtain ⟨rfl, rfl⟩ := ih (fun line hmem => hlines line (List.mem_cons_of_mem _ hmem))
        (fun line hmem => hlines' line (List.mem_cons_of_mem _ hmem)) hmore
      exact ⟨rfl, rfl⟩

/-! ## The whole file -/

def streamReport (sha256 : List UInt8 → String) (rules : StreamRules) (bytes : List UInt8) (st : StreamState)
    (partialLine : Bool) : EventStreamReport where
  sha256 := sha256 bytes
  physicalBytes := bytes.length
  completeBytes := st.completeBytes
  records := st.records
  firstSequence := st.firstSequence
  lastSequence := st.lastSequence
  frameBoundaryRecords := st.frameBoundaryRecords
  frameCompletedRecords := st.frameCompletedRecords
  classCounts := st.classCounts
  stopEvent := st.stopEvent
  completeness := streamCompleteness rules st partialLine

section file
variable (decode : List UInt8 → Except String EventEnvelope) (registry : EventContractRegistry)
  (spec : EventValidationSpec) (anchor : Option ObservationStartFacts) (observationClasses : List String)
  (file : EventFile)

structure AcceptedFile (rules : StreamRules) (lines : List (List UInt8)) (rest : List UInt8) (st : StreamState) :
    Prop where
  ruled : streamRules registry spec anchor observationClasses = .ok rules
  bytes : file.bytes = lines.flatten ++ rest
  fault : file.fault = none
  fit : FitLines spec.limits lines rest
  total : file.bytes.length ≤ spec.limits.maxBytes
  accepted : acceptAll decode rules rules.start lines = .ok st
  stop : rest ≠ [] → st.stopEvent = none
  anchored : st.observationStartMatched = true

variable {decode registry spec anchor observationClasses file} {rules : StreamRules} {lines : List (List UInt8)}
  {rest : List UInt8} {st : StreamState} {sha256 : List UInt8 → String}

theorem streamRules_spec (h : streamRules registry spec anchor observationClasses = .ok rules) :
    rules.spec = spec ∧ rules.anchor = anchor ∧ rules.observationClasses = observationClasses := by
  unfold streamRules at h
  simp only [bind_eq_ok, require_eq_ok, exists_const] at h
  obtain ⟨_, _, _, _, _, _, _, h⟩ := h
  obtain rfl := Except.ok.inj h
  exact ⟨rfl, rfl, rfl⟩

theorem streamRules_occurrence (h : streamRules registry spec anchor observationClasses = .ok rules) :
    ∀ stop ∈ spec.stopOn, stop.occurrence ≠ 0 := by
  unfold streamRules at h
  simp only [bind_eq_ok, require_eq_ok, exists_const] at h
  obtain ⟨_, _, _, _, _, _, hstop, _⟩ := h
  intro stop hsome
  rw [Option.mem_def.mp hsome, checkStop, require_eq_ok] at hstop
  exact hstop.1

theorem AcceptedFile.validate (hfits : LimitsFit spec.limits)
    (h : AcceptedFile decode registry spec anchor observationClasses file rules lines rest st) :
    validateEventStreamAtStart decode sha256 file registry spec anchor observationClasses =
      .ok (streamReport sha256 rules file.bytes st (decide (rest ≠ []))) := by
  obtain ⟨hspec, -, -⟩ := streamRules_spec h.ruled
  have hremaining : (EventReader.new file).remaining = lines.flatten ++ rest := h.bytes
  have htotal : (EventReader.new file).physicalBytes + (lines.flatten ++ rest).length ≤ rules.spec.limits.maxBytes := by
    rw [← h.bytes, hspec]
    simpa [EventReader.new] using h.total
  obtain ⟨r, htraverse, hconsumed⟩ := traverse_of_acceptAll (hspec ▸ hfits) h.accepted hremaining h.fault
    (hspec ▸ h.fit) htotal h.stop
  have hhashed : r.hashed = file.bytes := by
    rw [hconsumed.hashed, h.bytes]
    rfl
  have hphysical : r.physicalBytes = file.bytes.length := by
    rw [hconsumed.physicalBytes, h.bytes]
    exact Nat.zero_add _
  unfold validateEventStreamAtStart
  simp only [bind_eq_ok, require_eq_ok, exists_const]
  refine ⟨rules, h.ruled, _, htraverse, h.anchored, ?_⟩
  simp only [streamReport, hhashed, hphysical]
  rfl

theorem exists_acceptedFile {report : EventStreamReport}
    (h : validateEventStreamAtStart decode sha256 file registry spec anchor observationClasses = .ok report) :
    ∃ rules lines rest st,
      AcceptedFile decode registry spec anchor observationClasses file rules lines rest st := by
  unfold validateEventStreamAtStart at h
  simp only [bind_eq_ok, require_eq_ok, exists_const] at h
  obtain ⟨rules, hrules, ⟨st, partialLine, r⟩, htraverse, hanchored, -⟩ := h
  obtain ⟨hspec, -, -⟩ := streamRules_spec hrules
  obtain ⟨lines, rest, haccepted, hremaining, hlines, htotal, -, hstop, hfault⟩ := acceptAll_of_traverse htraverse
  refine ⟨rules, lines, rest, st, hrules, hremaining, hfault, hspec ▸ hlines, ?_, haccepted, hstop, hanchored⟩
  by_cases hempty : lines.flatten ++ rest = []
  · rw [show file.bytes = _ from hremaining, hempty]
    exact Nat.zero_le _
  · have hsum := htotal hempty
    rw [← hremaining, hspec] at hsum
    have hbytes : 0 + file.bytes.length ≤ spec.limits.maxBytes := hsum
    omega

end file

end Emucap.Bundle
