import Emucap.Bundle.EventAcceptance

/-!
# A file read line by line

What `read_bounded_line` (`bundle/event.rs`) finds depends on the bytes to come alone, but for which of two exceeded
limits is named. The lines of a file that keeps to the limits are found again (`readLines`).
-/

namespace Emucap.Bundle

open Emucap.Lib

/-! ## The next line -/

theorem lineTake_nil : lineTake [] = 0 := rfl

theorem lineTake_append_of_not_mem {bytes : List UInt8} (h : newline ∉ bytes) (more : List UInt8) :
    lineTake (bytes ++ more) = bytes.length + lineTake more := by
  have hnone : bytes.findIdx? (· == newline) = none := by
    rw [List.findIdx?_eq_none_iff]
    intro b hb
    simp only [beq_eq_false_iff_ne]
    rintro rfl
    exact h hb
  unfold lineTake
  rw [List.findIdx?_append, hnone, Option.none_or]
  cases more.findIdx? (· == newline) with
  | none => simp
  | some i =>
    simp only [Option.map_some]
    omega

theorem lineTake_le_append (bytes more : List UInt8) : lineTake bytes ≤ lineTake (bytes ++ more) := by
  by_cases h : newline ∈ bytes
  · unfold lineTake
    rw [List.findIdx?_append]
    cases hfind : bytes.findIdx? (· == newline) with
    | none => simpa using List.findIdx?_eq_none_iff.mp hfind newline h
    | some i => simp
  · rw [lineTake_append_of_not_mem h]
    exact le_trans (lineTake_le bytes) (Nat.le_add_right _ _)

theorem lineTake_whole {text : List UInt8} (h : newline ∉ text) (more : List UInt8) :
    lineTake (text ++ newline :: more) = text.length + 1 := by
  rw [lineTake_append_of_not_mem h]
  rfl

theorem lineTake_rest {rest : List UInt8} (h : newline ∉ rest) : lineTake rest = rest.length := by
  have happend := lineTake_append_of_not_mem h []
  rwa [List.append_nil] at happend

inductive PastLimit (limits : RecordingLimits) (lineNumber size total : ℕ) : EventValidationError → Prop
  | line : limits.maxLineBytes < size → PastLimit limits lineNumber size total (.lineLimit lineNumber limits.maxLineBytes)
  | bytes : limits.maxBytes < total → PastLimit limits lineNumber size total (.byteLimit limits.maxBytes)
  | overflow : 2 ^ 64 ≤ size ∨ 2 ^ 64 ≤ total → PastLimit limits lineNumber size total .counterOverflow

theorem PastLimit.mono {limits : RecordingLimits} {lineNumber size size' total total' : ℕ}
    {e : EventValidationError} (h : PastLimit limits lineNumber size total e) (hsize : size ≤ size')
    (htotal : total ≤ total') : PastLimit limits lineNumber size' total' e := by
  cases h with
  | line h => exact .line (h.trans_le hsize)
  | bytes h => exact .bytes (h.trans_le htotal)
  | overflow h => exact .overflow (h.imp hsize.trans' htotal.trans')

section line
variable {lineNumber : ℕ} {limits : RecordingLimits}

theorem checkTake_errors (lineLen take physicalBytes : ℕ) :
    ErrorsIn (PastLimit limits lineNumber (lineLen + take) (physicalBytes + take))
      (checkTake lineNumber limits lineLen take physicalBytes) := by
  unfold checkTake updateTotal
  refine errorsIn_orError_bind (fun hnone => .overflow (.inl (checkedAdd_eq_none.mp hnone))) fun size hsize => ?_
  obtain ⟨-, rfl⟩ := checkedAdd_eq_some.mp hsize
  refine errorsIn_require_bind (fun hle => .line (Nat.lt_of_not_le hle)) fun _ => ?_
  refine errorsIn_orError_bind (fun hnone => .overflow (.inr (checkedAdd_eq_none.mp hnone))) fun total htotal => ?_
  obtain ⟨-, rfl⟩ := checkedAdd_eq_some.mp htotal
  exact errorsIn_require_bind (fun hle => .bytes (Nat.lt_of_not_le hle)) fun _ => errorsIn_ok _

theorem readBoundedLine_errors {line : List UInt8} {r : EventReader} (hfault : r.fault = none) :
    ErrorsIn (PastLimit limits lineNumber (line.length + lineTake r.remaining)
      (r.physicalBytes + lineTake r.remaining)) (readBoundedLine lineNumber limits line r) := by
  intro e h
  fun_induction readBoundedLine lineNumber limits line r with
  | case1 => cases hfault
  | case2 => cases h
  | case3 line available reads fault physicalBytes hashed ih => exact ih hfault h
  | case4 line b bs reads fault physicalBytes hashed take e' htake =>
    obtain rfl : e' = e := Except.error.inj h
    have hle : take ≤ lineTake ((b :: bs) ++ reads.flatten) := lineTake_le_append _ _
    exact (checkTake_errors _ _ _ _ htake).mono (Nat.add_le_add_left hle _) (Nat.add_le_add_left hle _)
  | case5 => cases h
  | case6 line b bs reads fault physicalBytes hashed take total htake r line' hlast ih =>
    -- the buffer has no newline, and the line goes on behind it
    have hnone : newline ∉ b :: bs := by
      intro hmem
      rcases take_lineTake (b :: bs) with ⟨text, -, htaken⟩ | ⟨hnone, -⟩
      · refine hlast ?_
        simp only [line', take, htaken, ← List.append_assoc, List.getLast?_concat]
      · exact hnone hmem
    have hall : take = (b :: bs).length := lineTake_rest hnone
    have hline' : line'.length = line.length + (b :: bs).length := by
      simp only [line', hall, List.take_length, List.length_append]
    have htotal : total = physicalBytes + (b :: bs).length := hall ▸ (checkTake_eq_ok htake).1
    have hremaining : r.remaining = reads.flatten := by
      simp only [r, EventReader.remaining, hall, List.drop_length, List.nil_append]
    have hsize : lineTake ((b :: bs) ++ reads.flatten) = (b :: bs).length + lineTake reads.flatten :=
      lineTake_append_of_not_mem hnone _
    have hpast := ih hfault h
    rw [hline', hremaining, Nat.add_assoc, ← hsize] at hpast
    simp only [r, htotal, Nat.add_assoc, ← hsize] at hpast
    exact hpast

/-- The next line of what is still to come, and whether a newline ends it. -/
def nextLine (bytes : List UInt8) : Option (List UInt8 × Bool) :=
  if bytes = [] then none else some (bytes.take (lineTake bytes), decide (newline ∈ bytes))

structure LineFits (limits : RecordingLimits) (r : EventReader) : Prop where
  line : lineTake r.remaining ≤ limits.maxLineBytes
  bytes : r.remaining ≠ [] → r.physicalBytes + lineTake r.remaining ≤ limits.maxBytes

theorem readBoundedLine_empty {line : List UInt8} {r : EventReader} (hremaining : r.remaining = [])
    (hfault : r.fault = none) :
    ∃ r', readBoundedLine lineNumber limits line r = .ok (if line = [] then none else some (line, false), r') ∧
      Consumed r r' [] := by
  fun_induction readBoundedLine lineNumber limits line r with
  | case1 => cases hfault
  | case2 line physicalBytes hashed => exact ⟨_, rfl, Consumed.refl _⟩
  | case3 line available reads fault physicalBytes hashed ih =>
    obtain ⟨r', hread, hconsumed⟩ := ih hremaining hfault
    exact ⟨r', hread, hconsumed.remaining, hconsumed.hashed, hconsumed.physicalBytes, hconsumed.fault⟩
  | case4 => simp [EventReader.remaining] at hremaining
  | case5 => simp [EventReader.remaining] at hremaining
  | case6 => simp [EventReader.remaining] at hremaining

theorem readBoundedLine_of_fits (hfits : LimitsFit limits) {r : EventReader} (hfault : r.fault = none)
    (h : LineFits limits r) :
    ∃ r', readBoundedLine lineNumber limits [] r = .ok (nextLine r.remaining, r') ∧
      Consumed r r' (r.remaining.take (lineTake r.remaining)) := by
  by_cases hempty : r.remaining = []
  · rw [nextLine, if_pos hempty, hempty, lineTake_nil, List.take_nil]
    exact readBoundedLine_empty hempty hfault
  have hline := h.line
  have htotal := h.bytes hempty
  rw [nextLine, if_neg hempty]
  by_cases hmem : newline ∈ r.remaining
  · obtain ⟨text, after, htext, hremaining⟩ : ∃ text after, newline ∉ text ∧ r.remaining = text ++ newline :: after := by
      obtain ⟨text, after, hsplit, htext⟩ := List.eq_append_cons_of_mem hmem
      exact ⟨text, after, htext, hsplit⟩
    have hsize : lineTake r.remaining = text.length + 1 := hremaining ▸ lineTake_whole htext after
    have htake : r.remaining.take (lineTake r.remaining) = text ++ [newline] := by
      rw [hsize, hremaining, ← List.singleton_append, ← List.append_assoc]
      exact List.take_left' (by simp)
    rw [htake, decide_eq_true hmem]
    exact readBoundedLine_whole hfits hremaining htext (by simp only [List.length_nil]; omega) (by omega)
  · have hsize := lineTake_rest hmem
    rw [hsize, List.take_length, decide_eq_false hmem]
    obtain ⟨r', hread, hconsumed⟩ := @readBoundedLine_rest lineNumber limits hfits [] _ r rfl hmem
      List.not_mem_nil hfault (by simp only [List.length_nil]; omega) (by omega)
    rw [List.nil_append, if_neg hempty] at hread
    exact ⟨r', hread, hconsumed⟩

theorem LineFits.of_ok {r r' : EventReader} {result : Option (List UInt8 × Bool)}
    (h : readBoundedLine lineNumber limits [] r = .ok (result, r')) : LineFits limits r := by
  obtain ⟨bytes, hconsumed, hresult⟩ := readBoundedLine_eq_ok h
  have hread : ∀ whole, result = some (bytes, whole) → bytes ≠ [] →
      bytes.length ≤ limits.maxLineBytes ∧ r.physicalBytes + bytes.length ≤ limits.maxBytes := by
    intro whole hsome hne
    rcases readBoundedLine_le (hsome ▸ h) with hnil | ⟨hline, htotal⟩
    · exact absurd hnil hne
    · exact ⟨hline, hconsumed.physicalBytes ▸ htotal⟩
  rcases hresult with ⟨-, hempty, hend⟩ | ⟨text, rfl, htext, hsome⟩ | ⟨hmem, hsome, hend⟩
  · have hremaining : r.remaining = [] := by
      rw [hconsumed.remaining, hend.remaining, List.append_nil]
      exact (List.append_eq_nil_iff.mp hempty).2
    refine ⟨?_, fun hne => absurd hremaining hne⟩
    rw [hremaining, lineTake_nil]
    omega
  · have hsize : lineTake r.remaining = (text ++ [newline]).length := by
      rw [hconsumed.remaining, List.append_assoc, List.singleton_append, lineTake_whole htext]
      simp
    obtain ⟨hline, htotal⟩ := hread true hsome (by simp)
    rw [← hsize] at hline htotal
    exact ⟨hline, fun _ => htotal⟩
  · have hremaining : r.remaining = bytes := by
      rw [hconsumed.remaining, hend.remaining, List.append_nil]
    have hne : bytes ≠ [] := readBoundedLine_ne_nil (hsome ▸ h)
    obtain ⟨hline, htotal⟩ := hread false hsome hne
    rw [← lineTake_rest hmem, ← hremaining] at hline htotal
    exact ⟨hline, fun _ => htotal⟩

/-- Two readers have the same to read, and have read the same; their buffers may differ. -/
structure SameText (r₁ r₂ : EventReader) : Prop where
  remaining : r₁.remaining = r₂.remaining
  physicalBytes : r₁.physicalBytes = r₂.physicalBytes
  hashed : r₁.hashed = r₂.hashed
  fault : r₁.fault = none ∧ r₂.fault = none

theorem SameText.symm {r₁ r₂ : EventReader} (h : SameText r₁ r₂) : SameText r₂ r₁ :=
  ⟨h.remaining.symm, h.physicalBytes.symm, h.hashed.symm, h.fault.symm⟩

theorem SameText.consumed {r₁ r₂ r₁' r₂' : EventReader} {bytes : List UInt8} (h : SameText r₁ r₂)
    (h₁ : Consumed r₁ r₁' bytes) (h₂ : Consumed r₂ r₂' bytes) : SameText r₁' r₂' where
  remaining := by
    have hremaining := h.remaining
    rwa [h₁.remaining, h₂.remaining, List.append_cancel_left_eq] at hremaining
  physicalBytes := by rw [h₁.physicalBytes, h₂.physicalBytes, h.physicalBytes]
  hashed := by rw [h₁.hashed, h₂.hashed, h.hashed]
  fault := ⟨h₁.fault.trans h.fault.1, h₂.fault.trans h.fault.2⟩

theorem LineFits.same {r₁ r₂ : EventReader} (hfits : LineFits limits r₁) (h : SameText r₁ r₂) :
    LineFits limits r₂ := by
  refine ⟨?_, fun hne => ?_⟩
  · rw [← h.remaining]
    exact hfits.line
  · rw [← h.remaining] at hne
    rw [← h.remaining, ← h.physicalBytes]
    exact hfits.bytes hne

/-- Both readers read the next line; or neither does, and each of their errors names a limit that the line
exceeds. -/
def ReadAlike (limits : RecordingLimits) (lineNumber : ℕ) (r₁ r₂ : EventReader) : Prop :=
  (∃ r₁' r₂', readBoundedLine lineNumber limits [] r₁ = .ok (nextLine r₁.remaining, r₁') ∧
    readBoundedLine lineNumber limits [] r₂ = .ok (nextLine r₁.remaining, r₂') ∧ SameText r₁' r₂') ∨
  ∃ e₁ e₂, readBoundedLine lineNumber limits [] r₁ = .error e₁ ∧ readBoundedLine lineNumber limits [] r₂ = .error e₂ ∧
    ∀ e, e = e₁ ∨ e = e₂ →
      PastLimit limits lineNumber (lineTake r₁.remaining) (r₁.physicalBytes + lineTake r₁.remaining) e

theorem readBoundedLine_same (hfits : LimitsFit limits) {r₁ r₂ : EventReader} (h : SameText r₁ r₂) :
    ReadAlike limits lineNumber r₁ r₂ := by
  by_cases hline : LineFits limits r₁
  · left
    obtain ⟨r₁', hread₁, hconsumed₁⟩ := @readBoundedLine_of_fits lineNumber limits hfits r₁ h.fault.1 hline
    obtain ⟨r₂', hread₂, hconsumed₂⟩ := @readBoundedLine_of_fits lineNumber limits hfits r₂ h.fault.2 (hline.same h)
    rw [← h.remaining] at hread₂ hconsumed₂
    exact ⟨r₁', r₂', hread₁, hread₂, h.consumed hconsumed₁ hconsumed₂⟩
  · right
    have herrors₁ := @readBoundedLine_errors lineNumber limits [] r₁ h.fault.1
    have herrors₂ := @readBoundedLine_errors lineNumber limits [] r₂ h.fault.2
    rw [← h.remaining, ← h.physicalBytes] at herrors₂
    simp only [List.length_nil, Nat.zero_add] at herrors₁ herrors₂
    match hread₁ : readBoundedLine lineNumber limits [] r₁, hread₂ : readBoundedLine lineNumber limits [] r₂ with
    | .ok (_, _), _ => exact absurd (LineFits.of_ok hread₁) hline
    | .error _, .ok (_, _) => exact absurd ((LineFits.of_ok hread₂).same h.symm) hline
    | .error e₁, .error e₂ =>
      refine ⟨e₁, e₂, rfl, rfl, ?_⟩
      rintro e (rfl | rfl)
      · exact herrors₁ _ hread₁
      · exact herrors₂ _ hread₂

end line

/-! ## The whole file -/

def readLines (limits : RecordingLimits) (lineNumber : ℕ) (r : EventReader) :
    EventCheck (List (List UInt8) × List UInt8 × EventReader) :=
  match hread : readBoundedLine lineNumber limits [] r with
  | .error e => .error e
  | .ok (none, r') => .ok ([], [], r')
  | .ok (some (line, whole), r') =>
    if hwhole : whole = false then .ok ([], line, r')
    else
      have : r'.remaining.length < r.remaining.length := readBoundedLine_lt hread hwhole
      match readLines limits (lineNumber + 1) r' with
      | .error e => .error e
      | .ok (lines, rest, r'') => .ok (line :: lines, rest, r'')
termination_by r.remaining.length

section lines
variable {limits : RecordingLimits} {lineNumber : ℕ} {r r' : EventReader}

theorem readLines_none (hread : readBoundedLine lineNumber limits [] r = .ok (none, r')) :
    readLines limits lineNumber r = .ok ([], [], r') := by
  unfold readLines
  split
  · next hread' => simp [hread] at hread'
  · next hread' =>
    rw [hread, Except.ok.injEq, Prod.mk.injEq] at hread'
    rw [hread'.2]
  · next hread' => simp [hread] at hread'

theorem readLines_rest {line : List UInt8}
    (hread : readBoundedLine lineNumber limits [] r = .ok (some (line, false), r')) :
    readLines limits lineNumber r = .ok ([], line, r') := by
  unfold readLines
  split
  · next hread' => simp [hread] at hread'
  · next hread' => simp [hread] at hread'
  · next hread' =>
    simp only [hread, Except.ok.injEq, Prod.mk.injEq, Option.some.injEq] at hread'
    obtain ⟨⟨rfl, rfl⟩, rfl⟩ := hread'
    simp

theorem readLines_line {line : List UInt8}
    (hread : readBoundedLine lineNumber limits [] r = .ok (some (line, true), r')) :
    readLines limits lineNumber r =
      (readLines limits (lineNumber + 1) r').map fun found => (line :: found.1, found.2) := by
  rw [readLines]
  split
  · next hread' => simp [hread] at hread'
  · next hread' => simp [hread] at hread'
  · next hread' =>
    simp only [hread, Except.ok.injEq, Prod.mk.injEq, Option.some.injEq] at hread'
    obtain ⟨⟨rfl, rfl⟩, rfl⟩ := hread'
    simp only [Bool.true_eq_false, dite_false]
    rcases readLines limits (lineNumber + 1) r' with e | ⟨lines, rest, r''⟩ <;> rfl

structure ReadTo (limits : RecordingLimits) (r : EventReader) (lines : List (List UInt8)) (rest : List UInt8)
    (r' : EventReader) : Prop where
  consumed : Consumed r r' (lines.flatten ++ rest)
  atEnd : r'.AtEnd
  fit : FitLines limits lines rest

theorem readLines_eq_ok {lines : List (List UInt8)} {rest : List UInt8}
    (h : readLines limits lineNumber r = .ok (lines, rest, r')) : ReadTo limits r lines rest r' := by
  fun_induction readLines limits lineNumber r generalizing lines rest r' with
  | case1 => cases h
  | case2 lineNumber r r'' hread =>
    obtain ⟨rfl, rfl, rfl⟩ : [] = lines ∧ [] = rest ∧ r'' = r' := by simpa using h
    obtain ⟨bytes, hconsumed, ⟨-, hempty, hend⟩ | ⟨_, -, -, hsome⟩ | ⟨-, hsome, -⟩⟩ := readBoundedLine_eq_ok hread
    · rw [List.nil_append] at hempty
      rw [hempty] at hconsumed
      exact ⟨hconsumed, hend, nofun, List.not_mem_nil, Nat.zero_le _⟩
    · cases hsome
    · cases hsome
  | case3 lineNumber r line r'' hread =>
    obtain ⟨rfl, rfl, rfl⟩ : [] = lines ∧ line = rest ∧ r'' = r' := by simpa using h
    obtain ⟨bytes, hconsumed, ⟨hnone, -, -⟩ | ⟨_, -, -, hsome⟩ | ⟨hmem, hsome, hend⟩⟩ := readBoundedLine_eq_ok hread
    · cases hnone
    · simp at hsome
    · obtain rfl : line = bytes := by simpa using hsome
      rcases readBoundedLine_le hread with hnil | ⟨hline, -⟩
      · exact absurd hnil (readBoundedLine_ne_nil hread)
      · exact ⟨hconsumed, hend, nofun, hmem, hline⟩
  | case4 => cases h
  | case5 lineNumber r line whole r'' hread hwhole hlt found rest' last hrec ih =>
    obtain ⟨rfl, rfl, rfl⟩ : line :: found = lines ∧ rest' = rest ∧ last = r' := by simpa using h
    obtain ⟨bytes, hconsumed, ⟨hnone, -, -⟩ | ⟨text, hbytes, htext, hsome⟩ | ⟨-, hsome, -⟩⟩ :=
      readBoundedLine_eq_ok hread
    · cases hnone
    · obtain ⟨rfl, -⟩ : line = bytes ∧ whole = true := by simpa using hsome
      obtain ⟨hconsumed', hend, hwholes, hrest⟩ := ih hrec
      rcases readBoundedLine_le hread with hnil | ⟨hline, -⟩
      · exact absurd hnil (readBoundedLine_ne_nil hread)
      refine ⟨?_, hend, List.forall_mem_cons.mpr ⟨⟨⟨text, htext, hbytes⟩, hline⟩, hwholes⟩, hrest⟩
      rw [List.flatten_cons, List.append_assoc]
      exact hconsumed.trans hconsumed'
    · simp only [Option.some.injEq, Prod.mk.injEq] at hsome
      exact absurd hsome.2 hwhole

theorem readLines_cons (hfits : LimitsFit limits) {line more : List UInt8}
    (hremaining : r.remaining = line ++ more) (hwhole : WholeLine line) (hline : line.length ≤ limits.maxLineBytes)
    (htotal : r.physicalBytes + line.length ≤ limits.maxBytes) :
    ∃ r', readLines limits lineNumber r =
        (readLines limits (lineNumber + 1) r').map (fun found => (line :: found.1, found.2)) ∧
      Consumed r r' line ∧ r'.remaining = more := by
  obtain ⟨text, htext, rfl⟩ := hwhole
  rw [List.length_append, List.length_singleton] at hline htotal
  rw [List.append_assoc, List.singleton_append] at hremaining
  obtain ⟨r', hread, hconsumed⟩ := @readBoundedLine_whole lineNumber limits hfits [] text more r hremaining htext
    (by simp only [List.length_nil]; omega) (by omega)
  refine ⟨r', readLines_line hread, hconsumed, ?_⟩
  have hboth := hconsumed.remaining
  rw [hremaining, List.append_assoc, List.singleton_append, List.append_cancel_left_eq, List.cons.injEq] at hboth
  exact hboth.2.symm

theorem readLines_of_fit (hfits : LimitsFit limits) {lines : List (List UInt8)} {rest : List UInt8}
    (hfault : r.fault = none) (hremaining : r.remaining = lines.flatten ++ rest) (hfit : FitLines limits lines rest)
    (htotal : r.physicalBytes + (lines.flatten ++ rest).length ≤ limits.maxBytes) :
    ∃ r', readLines limits lineNumber r = .ok (lines, rest, r') ∧ Consumed r r' (lines.flatten ++ rest) := by
  induction lines generalizing r lineNumber with
  | nil =>
    rw [List.flatten_nil, List.nil_append] at hremaining htotal ⊢
    obtain ⟨r', hread, hconsumed⟩ := @readBoundedLine_rest lineNumber limits hfits [] rest r hremaining
      hfit.rest.1 List.not_mem_nil hfault (by simpa using hfit.rest.2) htotal
    refine ⟨r', ?_, hconsumed⟩
    rw [List.nil_append] at hread
    by_cases hempty : rest = []
    · rw [if_pos hempty] at hread
      rw [readLines_none hread, hempty]
    · rw [if_neg hempty] at hread
      exact readLines_rest hread
  | cons line lines ih =>
    obtain ⟨hwhole, hline⟩ := hfit.whole line List.mem_cons_self
    rw [List.flatten_cons, List.append_assoc] at hremaining htotal ⊢
    rw [List.length_append] at htotal
    obtain ⟨r', hread, hconsumed, hmore⟩ := @readLines_cons limits lineNumber r hfits line _ hremaining hwhole
      hline (by omega)
    have hphysical := hconsumed.physicalBytes
    obtain ⟨r'', hrest, hconsumed'⟩ := @ih (lineNumber + 1) r' (hconsumed.fault.trans hfault) hmore
      ⟨fun line' hmem => hfit.whole line' (List.mem_cons_of_mem _ hmem), hfit.rest⟩ (by omega)
    refine ⟨r'', ?_, hconsumed.trans hconsumed'⟩
    rw [hread, hrest]
    rfl

end lines

/-! ## The validator within the limits -/

def EventValidationError.isLimit : EventValidationError → Bool
  | .lineLimit _ _ => true
  | .byteLimit _ => true
  | .eventLimit _ => true
  | _ => false

/-- A check that does not fail at a limit. -/
abbrev NoLimit {α : Type} (x : EventCheck α) : Prop := ErrorsIn (fun e => e.isLimit = false) x

section validator
variable {rules : StreamRules} {event : EventEnvelope} {st : StreamState} {contract : EventContract}

theorem nextU64_noLimit (value : ℕ) : NoLimit (nextU64 value) := errorsIn_orError fun _ => rfl

theorem checkAnchor_noLimit (matched : Bool) : NoLimit (rules.checkAnchor matched event) := by
  unfold StreamRules.checkAnchor
  split
  · exact errorsIn_ok _
  · refine errorsIn_require_bind (fun _ => rfl) fun _ => ?_
    split
    · exact errorsIn_require_bind (fun _ => rfl) fun _ => errorsIn_ok _
    · exact errorsIn_require_bind (fun _ => rfl) fun _ => errorsIn_ok _

theorem checkContract_noLimit : NoLimit (rules.checkContract event) := by
  unfold StreamRules.checkContract
  refine errorsIn_orError_bind (fun _ => rfl) fun _ _ => ?_
  refine errorsIn_require_bind (fun _ => rfl) fun _ => ?_
  refine errorsIn_require_bind (fun _ => rfl) fun _ => ?_
  refine errorsIn_require_bind (fun _ => rfl) fun _ => ?_
  exact errorsIn_require_bind (fun _ => rfl) fun _ => errorsIn_ok _

theorem checkClocks_noLimit : NoLimit (StreamRules.checkClocks contract event st) := by
  unfold StreamRules.checkClocks
  refine errorsIn_require_bind (fun _ => rfl) fun _ => ?_
  exact errorsIn_require_bind (fun _ => rfl) fun _ => errorsIn_ok _

theorem checkPayload_noLimit : NoLimit (rules.checkPayload contract event) := by
  unfold StreamRules.checkPayload
  exact errorsIn_require_bind (fun _ => rfl) fun _ => errorsIn_require fun _ => rfl

theorem checkFrameOrder_noLimit : NoLimit (rules.checkFrameOrder contract event st) := by
  unfold StreamRules.checkFrameOrder
  split
  · refine errorsIn_require_bind (fun _ => rfl) fun _ => ?_
    refine errorsIn_require_bind (fun _ => rfl) fun _ => ?_
    refine (nextU64_noLimit _).bind fun _ _ => ?_
    exact (nextU64_noLimit _).bind fun _ _ => errorsIn_ok _
  split
  · refine errorsIn_require_bind (fun _ => rfl) fun _ => ?_
    refine errorsIn_require_bind (fun _ => rfl) fun _ => ?_
    refine (nextU64_noLimit _).bind fun _ _ => ?_
    exact (nextU64_noLimit _).bind fun _ _ => errorsIn_ok _
  · exact errorsIn_ok _

theorem countEvent_noLimit : NoLimit (rules.countEvent event st) := by
  unfold StreamRules.countEvent
  refine (nextU64_noLimit _).bind fun _ _ => ?_
  split
  · exact (nextU64_noLimit _).bind fun _ _ => errorsIn_ok _
  · exact errorsIn_ok _

theorem countLine_noLimit {line : List UInt8} (hrecords : st.records + 1 ≤ rules.spec.limits.maxEvents) :
    NoLimit (rules.countLine line event st) := by
  unfold StreamRules.countLine
  refine errorsIn_require_bind (fun _ => rfl) fun _ => ?_
  refine (nextU64_noLimit _).bind fun _ _ => ?_
  refine (nextU64_noLimit _).bind fun records hnext => ?_
  obtain rfl := StreamRules.nextU64_eq_ok hnext
  refine errorsIn_require_bind (fun hgt => absurd hrecords hgt) fun _ => ?_
  exact errorsIn_orError_bind (fun _ => rfl) fun _ _ => errorsIn_ok _

theorem acceptEvent_noLimit {line : List UInt8} (hrecords : st.records + 1 ≤ rules.spec.limits.maxEvents) :
    NoLimit (rules.acceptEvent line event st) := by
  unfold StreamRules.acceptEvent
  refine (checkAnchor_noLimit _).bind fun _ _ => ?_
  refine ErrorsIn.bind (countLine_noLimit (show st.records + 1 ≤ _ from hrecords)) fun _ _ => ?_
  refine (checkContract_noLimit).bind fun _ _ => ?_
  refine (checkClocks_noLimit).bind fun _ _ => ?_
  refine (checkPayload_noLimit).bind fun _ _ => ?_
  refine (checkFrameOrder_noLimit).bind fun _ _ => ?_
  refine (countEvent_noLimit).bind fun _ _ => ?_
  exact (nextU64_noLimit _).bind fun _ _ => errorsIn_ok _

theorem checkTerms_noLimit {eventClass : String} {terms : List EventFilterTerm} {seen : List String} :
    NoLimit (checkTerms eventClass contract terms seen) := by
  induction terms generalizing seen with
  | nil => exact errorsIn_ok _
  | cons term terms ih =>
    refine errorsIn_require_bind (fun _ => rfl) fun _ => ?_
    exact errorsIn_require_bind (fun _ => rfl) fun _ => ih

theorem checkFilters_noLimit {selected : List (String × EventContract)} {rest : List EventClassFilter}
    {filters : List (String × EventClassFilter)} : NoLimit (checkFilters selected rest filters) := by
  induction rest generalizing filters with
  | nil => exact errorsIn_ok _
  | cons filter rest ih =>
    refine errorsIn_orError_bind (fun _ => rfl) fun _ _ => ?_
    refine errorsIn_require_bind (fun _ => rfl) fun _ => ?_
    refine (checkTerms_noLimit).bind fun _ _ => ?_
    exact errorsIn_require_bind (fun _ => rfl) fun _ => ih

theorem selectClasses_noLimit {registry : EventContractRegistry} {identities : List EventClassIdentity}
    {selected : List (String × EventContract)} : NoLimit (selectClasses registry selected identities) := by
  induction identities generalizing selected with
  | nil => exact errorsIn_ok _
  | cons identity identities ih =>
    refine ErrorsIn.bind ?_ fun _ _ => ih
    intro e h
    match hidentity : registry.validateIdentity identity with
    | .error source =>
      rw [hidentity] at h
      obtain rfl := Except.error.inj h
      rfl
    | .ok contract =>
      rw [hidentity] at h
      cases h

theorem streamRules_noLimit {registry : EventContractRegistry} {spec : EventValidationSpec}
    {anchor : Option ObservationStartFacts} {observationClasses : List String} :
    NoLimit (streamRules registry spec anchor observationClasses) := by
  unfold streamRules
  refine (selectClasses_noLimit).bind fun _ _ => ?_
  refine errorsIn_require_bind (fun _ => rfl) fun _ => ?_
  refine (checkFilters_noLimit).bind fun _ _ => ?_
  refine ErrorsIn.bind ?_ fun _ _ => errorsIn_ok _
  unfold checkStop
  split
  · exact errorsIn_ok _
  · exact errorsIn_require fun _ => rfl

theorem acceptEvent_counted {line : List UInt8} {next : StreamState}
    (h : rules.acceptEvent line event st = .ok next) :
    next.records = st.records + 1 ∧ next.completeBytes = st.completeBytes + line.length := by
  simp only [StreamRules.acceptEvent, bind_eq_ok] at h
  obtain ⟨matched, -, st₁, hline, contract, -, st₂, hclocks, u, -, st₃, horder, st₄, hcount, lineNumber, -, hnext⟩ := h
  obtain rfl := Except.ok.inj hnext
  have hst₁ := (StreamRules.countLine_eq_ok hline).2
  have hst₂ := (StreamRules.checkClocks_eq_ok hclocks).2
  have hst₃ := (StreamRules.checkFrameOrder_eq_ok horder).2.2
  have hst₄ := (StreamRules.countEvent_eq_ok hcount).2
  show st₄.records = _ ∧ st₄.completeBytes = _
  rw [hst₄, hst₃, hst₂, hst₁]
  exact ⟨rfl, rfl⟩

variable {decode : List UInt8 → Except String EventEnvelope}

/-- The loop over lines that keep to the limits does not stop at a limit. -/
theorem traverse_noLimit (hfits : LimitsFit rules.spec.limits) {r : EventReader} {lines : List (List UInt8)}
    (hfault : r.fault = none) (hremaining : r.remaining = lines.flatten) (hfit : FitLines rules.spec.limits lines [])
    (htotal : r.physicalBytes + lines.flatten.length ≤ rules.spec.limits.maxBytes)
    (hrecords : st.records + lines.length ≤ rules.spec.limits.maxEvents) : NoLimit (traverse decode rules st r) := by
  induction lines generalizing st r with
  | nil =>
    obtain ⟨r', hread, -⟩ := @readBoundedLine_empty st.lineNumber rules.spec.limits [] r hremaining hfault
    rw [traverse_none hread]
    exact errorsIn_ok _
  | cons line lines ih =>
    obtain ⟨⟨text, htext, rfl⟩, hline⟩ := hfit.whole line List.mem_cons_self
    simp only [List.flatten_cons, List.append_assoc, List.singleton_append, List.length_append,
      List.length_cons, List.length_nil] at hremaining htotal hline hrecords
    obtain ⟨r', hread, hconsumed⟩ := @readBoundedLine_whole st.lineNumber rules.spec.limits hfits [] text _ r
      hremaining htext (by simpa using hline) (by omega)
    have hmore : r'.remaining = lines.flatten := by
      have hboth := hconsumed.remaining
      rw [hremaining, List.append_assoc, List.singleton_append, List.append_cancel_left_eq, List.cons.injEq] at hboth
      exact hboth.2.symm
    have hphysical := hconsumed.physicalBytes
    rw [List.length_append, List.length_singleton] at hphysical
    intro e h
    unfold traverse at h
    split at h
    · next hread' => simp [hread] at hread'
    · next hread' => simp [hread] at hread'
    · next hread' =>
      simp only [hread, List.nil_append, Except.ok.injEq, Prod.mk.injEq, Option.some.injEq] at hread'
      obtain ⟨⟨rfl, rfl⟩, rfl⟩ := hread'
      split_ifs at h with hstop
      · obtain rfl := Except.error.inj h
        rfl
      · split at h
        · obtain rfl := Except.error.inj h
          rfl
        · next event hevent =>
          split at h
          · next e' haccept =>
            obtain rfl := Except.error.inj h
            exact acceptEvent_noLimit (by omega) _ haccept
          · next next haccept =>
            have hnext := (acceptEvent_counted haccept).1
            exact ih (hconsumed.fault.trans hfault) hmore
              ⟨fun line' hmem => hfit.whole line' (List.mem_cons_of_mem _ hmem), hfit.rest⟩ (by omega) (by omega) e h

theorem validateEventStreamAtStart_noLimit {sha256 : List UInt8 → String} {file : EventFile}
    {registry : EventContractRegistry} {spec : EventValidationSpec} {anchor : Option ObservationStartFacts}
    {observationClasses : List String} {lines : List (List UInt8)} (hfits : LimitsFit spec.limits)
    (hfault : file.fault = none) (hbytes : file.bytes = lines.flatten) (hfit : FitLines spec.limits lines [])
    (htotal : lines.flatten.length ≤ spec.limits.maxBytes) (hrecords : lines.length ≤ spec.limits.maxEvents) :
    NoLimit (validateEventStreamAtStart decode sha256 file registry spec anchor observationClasses) := by
  unfold validateEventStreamAtStart
  refine (streamRules_noLimit).bind fun rules hrules => ?_
  obtain ⟨hspec, -, -⟩ := streamRules_spec hrules
  rw [← hspec] at hfits hfit htotal hrecords
  have hread : NoLimit (traverse decode rules rules.start (EventReader.new file)) := by
    refine traverse_noLimit hfits hfault hbytes hfit ?_ ?_
    · show 0 + _ ≤ _
      omega
    · show 0 + _ ≤ _
      omega
  refine hread.bind fun _ _ => ?_
  exact errorsIn_require_bind (fun _ => rfl) fun _ => errorsIn_ok _

theorem acceptAll_completeBytes {st' : StreamState} {lines : List (List UInt8)}
    (h : acceptAll decode rules st lines = .ok st') :
    st'.completeBytes = st.completeBytes + lines.flatten.length := by
  induction lines generalizing st with
  | nil =>
    obtain rfl := Except.ok.inj h
    rfl
  | cons line lines ih =>
    obtain ⟨-, event, next, -, hnext, hrest⟩ := acceptAll_cons.mp h
    rw [ih hrest, (acceptEvent_counted hnext).2, List.flatten_cons, List.length_append, Nat.add_assoc]

theorem report_bytes {sha256 : List UInt8 → String} {file : EventFile} {registry : EventContractRegistry}
    {spec : EventValidationSpec} {anchor : Option ObservationStartFacts} {observationClasses : List String}
    {report : EventStreamReport} (hfits : LimitsFit spec.limits)
    (h : validateEventStreamAtStart decode sha256 file registry spec anchor observationClasses = .ok report) :
    ∃ lines rest, file.bytes = lines.flatten ++ rest ∧ FitLines spec.limits lines rest ∧
      report.physicalBytes = report.completeBytes + rest.length ∧
      report.completeBytes = lines.flatten.length ∧ report.records = lines.length := by
  obtain ⟨rules, lines, rest, st, haccepted⟩ := exists_acceptedFile h
  have hreport := @AcceptedFile.validate _ _ _ _ _ _ _ _ _ _ sha256 hfits haccepted
  rw [h] at hreport
  obtain rfl := Except.ok.inj hreport
  have hcomplete : st.completeBytes = lines.flatten.length :=
    (acceptAll_completeBytes haccepted.accepted).trans (Nat.zero_add _)
  have hrecords : st.records = lines.length := (acceptAll_records haccepted.accepted).1.trans (Nat.zero_add _)
  refine ⟨lines, rest, haccepted.bytes, haccepted.fit, ?_, hcomplete, hrecords⟩
  show file.bytes.length = st.completeBytes + rest.length
  rw [haccepted.bytes, List.length_append, hcomplete]

end validator

end Emucap.Bundle
