import Emucap.InputMovie

/-!
# The input movie of a Mednafen recording

`emucap_parse_recording_input_movie` of `emucap_recording.cpp`: a cursor goes through the text, one row for each
frame. The model carries what is left of the text. Canonical texts only are accepted (`parseRows_eq_ok`,
`parseRows_render`).
-/

namespace Emucap.Adapters.Mednafen

open Emucap.Lib Emucap.InputMovie

/-- `EmucapRecordingButtonLookup`: the bit of a name, where the name is known. -/
abbrev ButtonLookup := List Char → Option (BitVec 16)

/-- The loop over the names of a row, from the name that `names` starts with. -/
def parseButtons (lookup : ButtonLookup) (mask : BitVec 16) (previous : List Char) (buttonCount : ℕ)
    (names : List Char) : Except String (BitVec 16) :=
  if names = [] then .ok mask
  else do
    let button := names.takeWhile (· != ',')
    require (¬ (button = [] ∨ previous ≠ [] ∧ button ≤ previous)) "input_movie buttons are not canonical"
    require (button.all isButtonChar) "input_movie buttons are not canonical"
    let bit ← orError ("input_movie contains an unsupported button: " ++ String.ofList button)
      ((lookup button).filter (· ≠ 0))
    require (mask &&& bit = 0) "input_movie contains aliases for the same button"
    require (buttonCount + 1 ≤ 32) "input_movie button count exceeds the advertised limit"
    match hrest : names.dropWhile (· != ',') with
    | [] => .ok (mask ||| bit)
    | _ :: rest => do
      require (rest ≠ []) "input_movie buttons are not canonical"
      parseButtons lookup (mask ||| bit) button (buttonCount + 1) rest
termination_by names.length
decreasing_by
  have := (List.dropWhile_sublist (l := names) (· != ',')).length_le
  rw [hrest, List.length_cons] at this
  omega

def parseRows (lookup : ButtonLookup) : ℕ → ℕ → List Char → Except String (List (BitVec 16))
  | 0, _, text => do
    require (text = []) "input_movie frame count mismatch"
    return []
  | remaining + 1, expected, text =>
    match text.dropWhile (· != '\n') with
    | [] => .error "input_movie frame count mismatch"
    | _ :: rest => do
      let row := text.takeWhile (· != '\n')
      let offset := Nat.toDigits 10 expected ++ [':']
      require (row.take offset.length = offset) "input_movie offsets must be dense from zero"
      let mask ← parseButtons lookup 0 [] 0 (row.drop offset.length)
      let masks ← parseRows lookup remaining (expected + 1) rest
      return mask :: masks

def emucapParseRecordingInputMovie (text : List Char) (frames : UInt64) (lookup : Option ButtonLookup) :
    Except String (List (BitVec 16)) :=
  match lookup with
  | none => .error "input_movie parser arguments are invalid"
  | some lookup => do
    require (¬ (frames < 1 ∨ text = [] ∨ text.getLast? ≠ some '\n')) "input_movie parser arguments are invalid"
    parseRows lookup frames.toNat 0 text

/-! ## Accepted texts are canonical -/

def addBits (lookup : ButtonLookup) (mask : BitVec 16) (buttons : List (List Char)) : BitVec 16 :=
  buttons.foldl (fun mask button => mask ||| (lookup button).getD 0) mask

def unionBits (lookup : ButtonLookup) (buttons : List (List Char)) : BitVec 16 := addBits lookup 0 buttons

theorem parseButtons_eq_ok {lookup : ButtonLookup} {mask out : BitVec 16} {previous names : List Char}
    {buttonCount : ℕ} (h : parseButtons lookup mask previous buttonCount names = .ok out)
    (hcount : buttonCount ≤ 32) :
    ∃ buttons, names = [','].intercalate buttons ∧
      (∀ button ∈ buttons, button ≠ [] ∧ button.all isButtonChar) ∧ buttons.Pairwise (· < ·) ∧
      (previous ≠ [] → ∀ button ∈ buttons, previous < button) ∧ buttonCount + buttons.length ≤ 32 ∧
      out = addBits lookup mask buttons := by
  induction hlen : names.length using Nat.strong_induction_on generalizing mask previous buttonCount names with
  | _ n ih =>
    subst hlen
    rw [parseButtons] at h
    split_ifs at h with hnames
    · cases h
      exact ⟨[], by simp [hnames], by simp, .nil, by simp, by simpa using hcount, rfl⟩
    · simp only [bind_eq_ok, require_eq_ok, exists_const, orError_eq_ok, Option.filter_eq_some_iff] at h
      obtain ⟨hcanonical, hchars, bit, ⟨hbit, -⟩, -, hbounded, h⟩ := h
      obtain ⟨hne, hprevious⟩ := not_or.mp hcanonical
      have hlt : previous ≠ [] → previous < names.takeWhile (· != ',') := fun hp =>
        not_le.mp fun hle => hprevious ⟨hp, hle⟩
      split at h
      · next hend =>
        have hwhole : names.takeWhile (· != ',') = names := by
          have := List.takeWhile_append_dropWhile (p := (· != ',')) (l := names)
          rwa [hend, List.append_nil] at this
        rw [hwhole] at hchars hlt hne hbit
        cases h
        exact ⟨[names], by simp, List.forall_mem_singleton.mpr ⟨hne, hchars⟩, by simp, by simpa using hlt,
          hbounded, by simp [addBits, hbit]⟩
      · next c rest hrest =>
        obtain ⟨hrestne, h⟩ := require_bind_eq_ok.mp h
        have hsplit := eq_append_of_dropWhile_ne hrest
        have hshort : rest.length < names.length := by
          rw [hsplit]
          simp
          omega
        obtain ⟨buttons, hnames', hvalid, hpairwise, hbutton, hcount', hout⟩ := ih _ hshort h hbounded rfl
        have hbutton := hbutton hne
        generalize names.takeWhile (· != ',') = button at *
        refine ⟨button :: buttons, ?_, List.forall_mem_cons.mpr ⟨⟨hne, hchars⟩, hvalid⟩,
          List.pairwise_cons.mpr ⟨hbutton, hpairwise⟩, ?_, by simp; omega, by simp [hout, addBits, hbit]⟩
        · have hbuttons : buttons ≠ [] := by
            rintro rfl
            exact hrestne hnames'
          rw [hsplit, hnames', List.intercalate_cons_of_ne_nil hbuttons]
          simp
        · intro hp b hb
          rcases List.mem_cons.mp hb with rfl | hb
          · exact hlt hp
          · exact (hlt hp).trans (hbutton b hb)

theorem parseRows_eq_ok {lookup : ButtonLookup} {remaining expected : ℕ} {text : List Char}
    {masks : List (BitVec 16)} (h : parseRows lookup remaining expected text = .ok masks) :
    ∃ rows, text = render expected rows ∧ rows.length = remaining ∧ (∀ buttons ∈ rows, ValidRow 32 buttons) ∧
      masks = rows.map (unionBits lookup) := by
  induction remaining generalizing expected text masks with
  | zero =>
    simp only [parseRows, require_bind_eq_ok] at h
    obtain ⟨htext, h⟩ := h
    cases h
    exact ⟨[], htext, rfl, by simp, rfl⟩
  | succ remaining ih =>
    rw [parseRows] at h
    split at h
    · cases h
    · next c rest hrest =>
      simp only [bind_eq_ok, require_eq_ok, exists_const] at h
      obtain ⟨hoffset, mask, hmask, masks', hrows, h⟩ := h
      cases h
      obtain ⟨buttons, hnames, hvalid, hpairwise, -, hcount, hout⟩ := parseButtons_eq_ok hmask (by omega)
      obtain ⟨rows, hrest', hlength, hrows, hmasks⟩ := ih hrows
      have hsplit := eq_append_of_dropWhile_ne hrest
      have hrow := List.take_append_drop (Nat.toDigits 10 expected ++ [':']).length (text.takeWhile (· != '\n'))
      rw [hoffset, hnames] at hrow
      refine ⟨buttons :: rows, ?_, by simp [hlength],
        List.forall_mem_cons.mpr ⟨⟨hvalid, hpairwise, by omega⟩, hrows⟩, by simp [hout, hmasks, unionBits]⟩
      rw [hsplit, ← hrow, hrest', render, renderRow]
      simp

/-! ## Canonical texts are accepted -/

/-- A lookup that maps the used names to distinct single bits. -/
structure DistinctBits (lookup : ButtonLookup) (used : List Char → Prop) (bit : List Char → Fin 16) : Prop where
  lookup : ∀ button, used button → lookup button = some (BitVec.twoPow 16 (bit button))
  distinct : ∀ button other, used button → used other → bit button = bit other → button = other

theorem twoPow_ne_zero (i : Fin 16) : BitVec.twoPow 16 i ≠ 0 := by
  intro h
  have hbit := congrArg (fun x => x.getLsbD i) h
  simp at hbit

theorem getLsbD_or_twoPow {mask : BitVec 16} {i j : Fin 16} (h : mask.getLsbD j = false) (hne : i ≠ j) :
    (mask ||| BitVec.twoPow 16 i).getLsbD j = false := by
  have hval : ¬ (i : ℕ) = j := fun heq => hne (Fin.ext heq)
  rw [BitVec.getLsbD_or, h, BitVec.getLsbD_twoPow]
  simp [hval]

theorem firstName {button : List Char} (hne : button ≠ []) (hcomma : ',' ∉ button) (rest : List (List Char)) :
    [','].intercalate (button :: rest) ≠ [] ∧
      ([','].intercalate (button :: rest)).takeWhile (· != ',') = button ∧
      ([','].intercalate (button :: rest)).dropWhile (· != ',') =
        if rest = [] then [] else ',' :: [','].intercalate rest := by
  cases rest with
  | nil =>
    have hall : ∀ c ∈ button, (c != ',') = true := fun c hc => by
      rw [bne_iff_ne]
      rintro rfl
      exact hcomma hc
    simpa [List.takeWhile_eq_self_iff, hne] using hall
  | cons next rest =>
    have hcons : [','].intercalate (button :: next :: rest) =
        button ++ ',' :: [','].intercalate (next :: rest) := by
      simp [List.intercalate_cons_cons]
    rw [hcons, takeWhile_ne_append hcomma, dropWhile_ne_append hcomma]
    simp

theorem parseButtons_intercalate {lookup : ButtonLookup} {used : List Char → Prop} {bit : List Char → Fin 16}
    (hlookup : DistinctBits lookup used bit) {buttons : List (List Char)}
    (hused : ∀ button ∈ buttons, used button)
    (hvalid : ∀ button ∈ buttons, button ≠ [] ∧ button.all isButtonChar) (hpairwise : buttons.Pairwise (· < ·))
    {mask : BitVec 16} (hmask : ∀ button ∈ buttons, mask.getLsbD (bit button) = false) {previous : List Char}
    (hprevious : previous ≠ [] → ∀ button ∈ buttons, previous < button) {buttonCount : ℕ}
    (hcount : buttonCount + buttons.length ≤ 32) :
    parseButtons lookup mask previous buttonCount ([','].intercalate buttons) =
      .ok (addBits lookup mask buttons) := by
  induction buttons generalizing mask previous buttonCount with
  | nil =>
    rw [parseButtons]
    rfl
  | cons button rest ih =>
    obtain ⟨hbutton, hvalid⟩ := List.forall_mem_cons.mp hvalid
    obtain ⟨hlt, hpairwise⟩ := List.pairwise_cons.mp hpairwise
    have hcomma : ',' ∉ button := fun hc => by
      have hcode := toNat_of_isButtonChar (List.all_eq_true.mp hbutton.2 _ hc)
      exact absurd hcode (by decide)
    have hbit : mask &&& BitVec.twoPow 16 (bit button) = 0 := by
      rw [BitVec.and_twoPow, hmask button (by simp)]
      rfl
    have hmaskrest : ∀ b ∈ rest, (mask ||| BitVec.twoPow 16 (bit button)).getLsbD (bit b) = false := by
      intro b hb
      apply getLsbD_or_twoPow (hmask b (by simp [hb]))
      intro heq
      have hsame := hlookup.distinct button b (hused button (by simp)) (hused b (by simp [hb])) heq
      exact absurd (hlt b hb) (hsame ▸ lt_irrefl _)
    have hknown := hlookup.lookup button (hused button (by simp))
    have hadd : addBits lookup mask (button :: rest) =
        addBits lookup (mask ||| BitVec.twoPow 16 (bit button)) rest := by
      simp [addBits, hknown]
    simp only [List.length_cons] at hcount
    have hrest := ih (fun b hb => hused b (by simp [hb])) hvalid hpairwise hmaskrest (fun _ => hlt)
      (show buttonCount + 1 + rest.length ≤ 32 by omega)
    obtain ⟨hne, htake, hdrop⟩ := firstName hbutton.1 hcomma rest
    rw [parseButtons, if_neg hne, hadd]
    simp only [bind_eq_ok, require_eq_ok, exists_const, orError_eq_ok, htake, Option.filter_eq_some_iff]
    refine ⟨?_, hbutton.2, _, ⟨hknown, by simpa using twoPow_ne_zero _⟩, hbit, by omega, ?_⟩
    · rintro (h | ⟨hp, hle⟩)
      · exact hbutton.1 h
      · exact absurd (hprevious hp button (by simp)) (not_lt.mpr hle)
    · split
      · next hend =>
        rw [hdrop] at hend
        split_ifs at hend with hnil
        subst hnil
        rfl
      · next c tail htail =>
        rw [hdrop] at htail
        split_ifs at htail with hnil
        cases htail
        rw [require_bind_eq_ok]
        refine ⟨?_, hrest⟩
        obtain ⟨next, rest, rfl⟩ := List.exists_cons_of_ne_nil hnil
        have hnext := (hvalid next (by simp)).1
        cases rest with
        | nil => simpa using hnext
        | cons => simp [List.intercalate_cons_cons]

theorem parseRows_render {lookup : ButtonLookup} {used : List Char → Prop} {bit : List Char → Fin 16}
    (hlookup : DistinctBits lookup used bit) {rows : List (List (List Char))}
    (hused : ∀ buttons ∈ rows, ∀ button ∈ buttons, used button)
    (hrows : ∀ buttons ∈ rows, ValidRow 32 buttons) (expected : ℕ) :
    parseRows lookup rows.length expected (render expected rows) = .ok (rows.map (unionBits lookup)) := by
  induction rows generalizing expected with
  | nil => rfl
  | cons buttons rows ih =>
    have hrow := hrows buttons (by simp)
    have hrest := ih (fun b hb => hused b (by simp [hb])) (fun b hb => hrows b (by simp [hb])) (expected + 1)
    have hmask : parseButtons lookup 0 [] 0 ([','].intercalate buttons) = .ok (unionBits lookup buttons) :=
      parseButtons_intercalate hlookup (hused buttons (by simp)) hrow.valid hrow.increasing (by simp) (by simp)
        (by simpa using hrow.bounded)
    have hnewline : '\n' ∉ Nat.toDigits 10 expected ++ [':'] ++ [','].intercalate buttons := by
      have hreads : Reads 32 expected (rowLines expected [buttons]) [buttons] :=
        reads_rowLines (by simpa using hrow) expected
      have := hreads.notMem_of_lt (show '\n'.toNat < 43 by decide) _ List.mem_cons_self
      simpa using this
    have htext : render expected (buttons :: rows) =
        Nat.toDigits 10 expected ++ [':'] ++ [','].intercalate buttons ++ '\n' :: render (expected + 1) rows := by
      simp [render, renderRow]
    rw [htext, List.length_cons, parseRows, dropWhile_ne_append hnewline]
    simp only [takeWhile_ne_append hnewline, bind_eq_ok, require_eq_ok, exists_const]
    refine ⟨List.take_left, _, ?_, _, hrest, rfl⟩
    rw [List.drop_left]
    exact hmask

end Emucap.Adapters.Mednafen
