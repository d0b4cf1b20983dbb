import Emucap.Bundle.Publish
import Emucap.Lib.JsonParsed
import Emucap.Lib.JsonRoundTrip
import Emucap.Track.Observe

/-!
# The canonical text of a state

The canonical text determines a state, and the reader of documents gives the state back where that does not nest
deeper than the reader follows it. A state that came in an answer was read as a part of that answer, so it nests less
deep, and the member that a recording keeps of it passes the check that its bytes are canonical.
-/

namespace Emucap.Bundle

open Emucap.Lib Emucap.Lib.Json Emucap.Track

def readJson (floatBits : List Char → Option UInt64) (bytes : List UInt8) : Except String Json :=
  orError "invalid JSON" (fromSlice floatBits bytes)

section canonical
variable {floatText : UInt64 → List Char} {floatBits : List Char → Option UInt64} {v w : Json}

theorem utf8_ofList_inj {cs cs' : List Char} (h : utf8 (String.ofList cs) = utf8 (String.ofList cs')) : cs = cs' := by
  have htext := congrArg fromUtf8 h
  rw [fromUtf8_utf8, fromUtf8_utf8] at htext
  exact String.ofList_inj.mp (Option.some.inj htext)

theorem canonicalJson_inj (hv : v.Integral ∧ v.Mapped) (hw : w.Integral ∧ w.Mapped) :
    canonicalJson floatText v = canonicalJson floatText w ↔ v.SameValue w := by
  rw [← @canonical_inj floatText v w hv hw]
  exact ⟨utf8_ofList_inj, fun h => congrArg (fun cs => utf8 (String.ofList cs)) h⟩

theorem fromSlice_utf8 (text : List Char) :
    fromSlice floatBits (utf8 (String.ofList text)) = fromStr floatBits text := by
  rw [fromSlice, fromUtf8_utf8, Option.bind_eq_bind, Option.bind_some, String.toList_ofList]

theorem fromSlice_canonicalJson (hintegral : v.Integral) (hmapped : v.Mapped) :
    fromSlice floatBits (canonicalJson floatText v) = some v.sortKeys ↔ v.nesting ≤ maxNesting := by
  rw [canonicalJson, fromSlice_utf8]
  refine ⟨fun h => ?_, fromStr_canonical hintegral hmapped⟩
  exact nesting_sortKeys.mp (fromStr_held h).2

theorem canonicalJson_sortKeys (hmapped : v.Mapped) :
    canonicalJson floatText v.sortKeys = canonicalJson floatText v := by
  rw [canonicalJson, canonicalJson, canonical_eq, canonical_eq, sortKeys_sortKeys hmapped]

theorem canonicalJson_ne_nil (hintegral : v.Integral) : canonicalJson floatText v ≠ [] := by
  intro hempty
  have hlength := (length_utf8_bounds (v.canonical floatText)).1
  rw [canonicalJson] at hempty
  obtain ⟨c, cs, hcs, -⟩ := @compact_eq_cons floatText v.sortKeys (integral_sortKeys hintegral)
  rw [hempty, canonical_eq, hcs] at hlength
  exact absurd hlength (by simp)

theorem mapped_of_ordered : v.Ordered → v.Mapped := by
  induction v using documentInduction with
  | scalar v harray hobject =>
    intro _
    refine (all_scalar harray hobject).mpr ?_
    cases v with
    | obj fields => exact absurd hobject nofun
    | _ => trivial
  | array items ih =>
    intro h
    exact all_arr.mpr ⟨trivial, fun item hitem => ih item hitem ((all_arr.mp h).2 item hitem)⟩
  | object fields ih =>
    intro h
    obtain ⟨hkeys, hfields⟩ := all_obj.mp h
    refine all_obj.mpr ⟨?_, fun field hfield => ih field hfield (hfields field hfield)⟩
    exact List.nodup_iff_pairwise_ne.mpr (hkeys.imp fun h => ne_of_lt h)

end canonical

section member
variable {env : Env} {floatBits : List Char → Option UInt64} {root : FsNode} {request : RecordingRequest}
  {identity : TerminalStateRequest} {state : Json}

/-- The member that holds the canonical text of an object passes all checks that its identity and length pass. -/
theorem validateTerminalStateMember_canonical (hrequest : request.terminalState = some identity)
    (hidentity : validProfileId identity.profile ∧ validHexDigest identity.contractSha256 32)
    (hobject : state.isObject) (hintegral : state.Integral) (hmapped : state.Mapped)
    (hnesting : state.nesting ≤ maxNesting)
    (hbytes : readBoundedRegularMember root terminalStateMember Live.coreMaxTerminalStateBytes =
      .ok (canonicalJson env.floatText state)) :
    validateTerminalStateMember { env with parseJson := readJson floatBits } root request =
      .ok (some ⟨.terminalState, terminalStateMember, env.sha256 (canonicalJson env.floatText state),
        (canonicalJson env.floatText state).length, none⟩) := by
  have hlength : (canonicalJson env.floatText state).length ≤ Live.coreMaxTerminalStateBytes := by
    simp only [readBoundedRegularMember, require_bind_eq_ok, orError_bind_eq_ok] at hbytes
    obtain ⟨-, bytes, -, hle, heq⟩ := hbytes
    exact Except.ok.inj heq ▸ hle
  have hread := (@fromSlice_canonicalJson env.floatText floatBits state hintegral hmapped).mpr hnesting
  have hne := @canonicalJson_ne_nil env.floatText state hintegral
  have hsorted : state.sortKeys.isObject := by
    cases state with
    | obj fields => rw [sortKeys_obj]; rfl
    | _ => exact absurd hobject nofun
  rw [validateTerminalStateMember, hrequest]
  dsimp only
  rw [require, if_pos hidentity, ok_bind, hbytes]
  change (require _ _ >>= _) = _
  rw [require, if_pos ⟨hne, hlength⟩, ok_bind, readJson, hread]
  change (require _ _ >>= _) = _
  rw [require, if_pos ⟨hsorted, canonicalJson_sortKeys hmapped⟩, ok_bind]
  rfl

theorem capturedState_eq_ok {floatText : UInt64 → List Char} {groups : List String} {maxBytes : ℕ} {result : Json}
    {bytes : List UInt8} (h : capturedState floatText groups maxBytes result = .ok bytes) :
    ∃ state, result.get "state" = some state ∧ state.isObject ∧ bytes = canonicalJson floatText state := by
  rw [capturedState, orError_bind_eq_ok] at h
  obtain ⟨state, hstate, h⟩ := h
  obtain ⟨object, hobject, h⟩ := orError_bind_eq_ok.mp h
  obtain ⟨-, h⟩ := require_bind_eq_ok.mp h
  obtain ⟨-, h⟩ := require_bind_eq_ok.mp h
  refine ⟨state, hstate, ?_, (Except.ok.inj h).symm⟩
  rw [Json.isObject, (Option.filter_eq_some_iff.mp hobject).1]
  rfl

theorem state_held {line : List UInt8} {response result : Json} (hresponse : fromSlice floatBits line = some response)
    (hresult : response.get "result" = some result) (hstate : result.get "state" = some state) :
    state.Held maxNesting :=
  (((fromSlice_held hresponse).get hresult).get hstate).mono (by decide)

/-- The canonical text determines a document of integers, and it is read back exactly where the document does not nest
deeper than the reader follows it. A state in an answer that was read from a line is such a document, and what a
recording keeps of it is accepted as canonical. Two observations of the same hash are of the same state, or of two
texts that the hash does not tell apart. -/
theorem canonicalJson_determines (env : Env) (floatBits : List Char → Option UInt64) :
    (∀ v w : Json, v.Integral ∧ v.Mapped → w.Integral ∧ w.Mapped →
      (canonicalJson env.floatText v = canonicalJson env.floatText w ↔ v.SameValue w)) ∧
    (∀ v : Json, v.Integral → v.Mapped →
      (fromSlice floatBits (canonicalJson env.floatText v) = some v.sortKeys ↔ v.nesting ≤ maxNesting) ∧
      (v.Ordered → v.sortKeys = v) ∧ v.SameValue v.sortKeys ∧
      canonicalJson env.floatText v.sortKeys = canonicalJson env.floatText v) ∧
    (∀ line response result state, fromSlice floatBits line = some response → response.get "result" = some result →
      result.get "state" = some state → state.Mapped ∧ state.nesting ≤ maxNesting) ∧
    (∀ result groups maxBytes bytes root request identity,
      (∀ state ∈ result.get "state", state.Integral ∧ state.Mapped ∧ state.nesting ≤ maxNesting) →
      capturedState env.floatText groups maxBytes result = .ok bytes →
      request.terminalState = some identity →
      validProfileId identity.profile ∧ validHexDigest identity.contractSha256 32 →
      readBoundedRegularMember root terminalStateMember Live.coreMaxTerminalStateBytes = .ok bytes →
      validateTerminalStateMember { env with parseJson := readJson floatBits } root request =
        .ok (some ⟨.terminalState, terminalStateMember, env.sha256 bytes, bytes.length, none⟩)) ∧
    (∀ link link' answer answer' seen seen', link.call "get_state" (.obj []) = .ok answer →
      link'.call "get_state" (.obj []) = .ok answer' → observeState env.floatText link = .ok seen →
      observeState env.floatText link' = .ok seen' →
      (observedState answer).Integral ∧ (observedState answer).Mapped →
      (observedState answer').Integral ∧ (observedState answer').Mapped → seen.sha256 = seen'.sha256 →
      (observedState answer).SameValue (observedState answer') ∨
        canonicalJson env.floatText (observedState answer) ≠ canonicalJson env.floatText (observedState answer') ∧
          sha256Hex (canonicalJson env.floatText (observedState answer)) =
            sha256Hex (canonicalJson env.floatText (observedState answer'))) := by
  refine ⟨fun v w hv hw => canonicalJson_inj hv hw, fun v hintegral hmapped => ?_, ?_, ?_, ?_⟩
  · exact ⟨fromSlice_canonicalJson hintegral hmapped, sortKeys_of_ordered, (sortKeys_sortKeys hmapped).symm,
      canonicalJson_sortKeys hmapped⟩
  · intro line response result state hresponse hresult hstate
    have hheld := state_held hresponse hresult hstate
    exact ⟨mapped_of_ordered hheld.1, hheld.2⟩
  · intro result groups maxBytes bytes root request identity hstates hcaptured hrequest hidentity hbytes
    obtain ⟨state, hstate, hobject, rfl⟩ := capturedState_eq_ok hcaptured
    obtain ⟨hintegral, hmapped, hnesting⟩ := hstates state hstate
    exact validateTerminalStateMember_canonical hrequest hidentity hobject hintegral hmapped hnesting hbytes
  · intro link link' answer answer' seen seen' hanswer hanswer' hseen hseen' hv hw hsame
    have houtcome : ∀ {link : Observed} {answer : Json} {seen : ObserveOutcome},
        link.call "get_state" (.obj []) = .ok answer → observeState env.floatText link = .ok seen →
          seen.sha256 = sha256Hex (canonicalJson env.floatText (observedState answer)) := by
      intro link answer seen hanswer hseen
      obtain ⟨-, h⟩ := require_bind_eq_ok.mp hseen
      rw [hanswer] at h
      exact (Except.ok.inj h) ▸ rfl
    rw [houtcome hanswer hseen, houtcome hanswer' hseen'] at hsame
    by_cases htext : canonicalJson env.floatText (observedState answer) =
        canonicalJson env.floatText (observedState answer')
    · exact .inl ((canonicalJson_inj hv hw).mp htext)
    · exact .inr ⟨htext, hsame⟩

end member

/-! ## A recording of one register, and a state that nests too deep -/

def registerState : Json := .obj [("cpu", .nat 7)]

def registerAnswer : Json := .obj [("state", registerState)]

theorem registerState_integral : registerState.Integral :=
  all_obj.mpr ⟨trivial, List.forall_mem_singleton.mpr (show (7 : ℕ) < 2 ^ 64 by decide)⟩

theorem registerState_ordered : registerState.Ordered :=
  all_obj.mpr ⟨List.pairwise_singleton _ _, List.forall_mem_singleton.mpr trivial⟩

def registerEnv : Env where
  decodeEvent _ := .error "expected value"
  decodeRow _ := .error "expected value"
  parseJson _ := .error "expected value"
  floatText _ := []
  sha256 := sha256Hex
  codec := ⟨fun _ => .error "expected value", fun _ => .error "expected value", fun _ => .error "expected value"⟩

def registerRequest : RecordingRequest where
  frames := 1
  warmupFrames := 0
  eventClasses := []
  eventFilters := []
  eventArming := []
  limits := ⟨1, 0, 0, 0, 0, 0⟩
  inputMovie := none
  initialState := none
  stopOn := none
  startOn := none
  initialSnapshots := []
  terminalSnapshots := []
  terminalState := some ⟨"registers-1", "a28fbfd59d967ed6a8f4f06377121807f302f2211fbd5754c697086466ab533a"⟩

def registerBytes : List UInt8 := utf8 "\x7b\"cpu\":7\x7d"

theorem canonicalJson_registerState : canonicalJson (fun _ => []) registerState = registerBytes := by
  rw [canonicalJson, canonical_eq, sortKeys_of_ordered registerState_ordered]
  decide +kernel

theorem capturedState_registerAnswer : capturedState (fun _ => []) ["cpu"] 64 registerAnswer = .ok registerBytes := by
  have hobject : registerState.asObject.filter (· ≠ []) = some [("cpu", .nat 7)] := by decide +kernel
  have hgroups : ∀ field ∈ [("cpu", Json.nat 7)], keyGroup field.1 ∈ ["cpu"] := by decide +kernel
  rw [capturedState, show registerAnswer.get "state" = some registerState from rfl, orError, ok_bind, hobject, orError,
    ok_bind, require, if_pos hgroups, ok_bind, canonicalJson_registerState]
  decide +kernel

def registerLink : Observed := ⟨["get_state"], fun _ _ => .ok registerAnswer⟩

theorem canonicalJson_determines_sample :
    (canonicalJson (fun _ => []) registerState = canonicalJson (fun _ => []) registerState ↔
      registerState.SameValue registerState) ∧
    fromSlice (fun _ => none) (canonicalJson (fun _ => []) registerState) = some registerState.sortKeys ∧
    validateTerminalStateMember { registerEnv with parseJson := readJson fun _ => none }
        (.dir [("terminal-state.json", .file registerBytes true)] true) registerRequest =
      .ok (some ⟨.terminalState, terminalStateMember, sha256Hex registerBytes, registerBytes.length, none⟩) ∧
    (registerState.SameValue registerState ∨
      canonicalJson (fun _ => []) registerState ≠ canonicalJson (fun _ => []) registerState ∧
        sha256Hex (canonicalJson (fun _ => []) registerState) =
          sha256Hex (canonicalJson (fun _ => []) registerState)) := by
  have hmapped := mapped_of_ordered registerState_ordered
  have hvalue : registerState.Integral ∧ registerState.Mapped := ⟨registerState_integral, hmapped⟩
  obtain ⟨hinj, hread, hline, haccept, hobserve⟩ := canonicalJson_determines registerEnv fun _ => none
  refine ⟨hinj _ _ hvalue hvalue, (hread _ registerState_integral hmapped).1.mpr (by decide), ?_, ?_⟩
  · refine haccept registerAnswer ["cpu"] 64 registerBytes _ registerRequest _ ?_ capturedState_registerAnswer rfl
      (by decide +kernel) (by decide +kernel)
    intro state hstate
    obtain rfl : registerState = state := Option.some.inj hstate
    exact ⟨registerState_integral, hline (utf8 "\x7b\"result\":\x7b\"state\":\x7b\"cpu\":7\x7d\x7d\x7d")
      (.obj [("result", registerAnswer)]) registerAnswer registerState (by decide +kernel) rfl rfl⟩
  · exact hobserve registerLink registerLink registerAnswer registerAnswer _ _ rfl rfl rfl rfl hvalue hvalue rfl

def nestedArray : ℕ → Json
  | 0 => .arr []
  | n + 1 => .arr [nestedArray n]

theorem nestedArray_integral : ∀ n, (nestedArray n).Integral
  | 0 => all_arr.mpr ⟨trivial, List.forall_mem_nil _⟩
  | n + 1 => all_arr.mpr ⟨trivial, List.forall_mem_singleton.mpr (nestedArray_integral n)⟩

theorem nestedArray_ordered : ∀ n, (nestedArray n).Ordered
  | 0 => all_arr.mpr ⟨trivial, List.forall_mem_nil _⟩
  | n + 1 => all_arr.mpr ⟨trivial, List.forall_mem_singleton.mpr (nestedArray_ordered n)⟩

theorem nestedArray_compact (floatText : UInt64 → List Char) (n : ℕ) :
    ∃ rest, (nestedArray n).compact floatText = List.replicate (n + 1) '[' ++ rest := by
  induction n with
  | zero => exact ⟨[']'], rfl⟩
  | succ n ih =>
    obtain ⟨rest, hrest⟩ := ih
    refine ⟨rest ++ [']'], ?_⟩
    simp [nestedArray, Json.compact, Json.compactItems, hrest, List.replicate_succ]

theorem parseValue_opened (n : ℕ) (rest : List Char) :
    parseValue floatBits n (List.replicate (n + 1) '[' ++ rest) = none := by
  induction n with
  | zero => rfl
  | succ n ih =>
    have hitems : parseItems (parseValue floatBits n) ((List.replicate (n + 1) '[' ++ rest).length + 1)
        (List.replicate (n + 1) '[' ++ rest) = none := by
      rw [parseItems, ih]
      rfl
    change (parseItems (parseValue floatBits n) ((List.replicate (n + 1) '[' ++ rest).length + 1)
      (List.replicate (n + 1) '[' ++ rest)).bind _ = none
    rw [hitems]
    rfl

/-- 128 arrays within each other are written, but not read back. -/
theorem nestedArray_not_read :
    (nestedArray 127).Integral ∧ (nestedArray 127).Ordered ∧
      fromSlice (fun _ => none) (canonicalJson (fun _ => []) (nestedArray 127)) = none := by
  refine ⟨nestedArray_integral 127, nestedArray_ordered 127, ?_⟩
  obtain ⟨rest, hrest⟩ := nestedArray_compact (fun _ => []) 127
  rw [canonicalJson, fromSlice_utf8, canonical_eq, sortKeys_of_ordered (nestedArray_ordered 127), hrest, fromStr,
    maxNesting, parseValue_opened]
  rfl

end Emucap.Bundle
