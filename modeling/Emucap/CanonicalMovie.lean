import Mathlib.Data.Finset.Dedup
import Emucap.InputMovie

/-!
# The canonical form of a movie

What `canonicalRecordingMovie` makes of a text that it accepts: the rows of the canonical form are `rowFrames` of sorted
button lists, and reading the text gives them back. So two texts have the same canonical form exactly if they denote the
same function from frames to sets of buttons.
-/

namespace Emucap.InputMovie

open Emucap.Lib

/-! ## The rows of a text -/

section rows
variable (decode : List Char → Except String ControllerRow)

def parseRow (raw : List Char) : Option MovieFrame := do
  let row ← splitOnce ':' (trim raw)
  let frame ← parseU64 (trim row.1)
  let state ← (rowState decode 0 row.2).toOption
  return ⟨frame, state.buttons, state.axes⟩

/-- The rows of a text: the lines that are not blank. -/
def rowsOf (text : List Char) : List (List Char) := (lines text).filter fun raw => trim raw ≠ []

variable {decode}

theorem rowState_eq_ok_iff {index : ℕ} {buttons : List Char} {state : ControllerRow} :
    rowState decode index buttons = .ok state ↔ (rowState decode 0 buttons).toOption = some state := by
  unfold rowState
  split_ifs
  · cases decode buttons with
    | error e => simp [Except.mapError, Except.toOption]
    | ok row => simp [Except.mapError, Except.toOption]
  · simp [Except.toOption]

theorem parseRows_eq_ok_iff {maxRows index : ℕ} {frames out : List MovieFrame} {ls : List (List Char)} :
    parseRows decode maxRows index frames ls = .ok out ↔
      ∃ new, (ls.filter fun raw => trim raw ≠ []).map (parseRow decode) = new.map some ∧ out = frames ++ new ∧
        (new = [] ∨ frames.length + new.length ≤ maxRows) := by
  induction ls generalizing index frames with
  | nil =>
    simp only [parseRows, Except.ok.injEq, List.filter_nil, List.map_nil]
    constructor
    · rintro rfl
      exact ⟨[], rfl, by simp, .inl rfl⟩
    · rintro ⟨new, hnew, rfl, -⟩
      rw [List.map_eq_nil_iff.mp hnew.symm, List.append_nil]
  | cons raw rest ih =>
    rw [parseRows]
    by_cases hblank : trim raw = []
    · rw [if_pos hblank, ih, List.filter_cons_of_neg (by simp [hblank])]
    · rw [if_neg hblank, List.filter_cons_of_pos (by simp [hblank]), List.map_cons]
      simp only [bind_eq_ok, orError_eq_ok, require_eq_ok, exists_const, rowState_eq_ok_iff, ih]
      constructor
      · rintro ⟨row, hrow, frame, hframe, state, hstate, hlength, new, hnew, rfl, hbound⟩
        refine ⟨⟨frame, state.buttons, state.axes⟩ :: new, ?_, by simp, .inr ?_⟩
        · rw [List.map_cons, hnew]
          congr 1
          simp [parseRow, hrow, hframe, hstate]
        · rcases hbound with rfl | hbound
          · simp only [List.length_singleton]
            omega
          · rw [List.length_append, List.length_singleton] at hbound
            rw [List.length_cons]
            omega
      · rintro ⟨new, hnew, rfl, hbound⟩
        cases new with
        | nil => simp at hnew
        | cons first new =>
          simp only [reduceCtorEq, List.length_cons, false_or] at hbound
          obtain ⟨hfirst, hrest⟩ := List.cons.inj hnew
          simp only [parseRow, Option.bind_eq_bind, Option.bind_eq_some_iff, Option.pure_def,
            Option.some.injEq] at hfirst
          obtain ⟨row, hrow, frame, hframe, state, hstate, rfl⟩ := hfirst
          refine ⟨row, hrow, frame, hframe, state, hstate, by omega, new, hrest, by simp, .inr ?_⟩
          simp only [List.length_append, List.length_singleton]
          omega

theorem parseMovie_eq_ok_iff {text : List Char} {movie : Movie} :
    parseMovie decode text = .ok movie ↔ ∃ new, (rowsOf text).map (parseRow decode) = new.map some ∧
      (new = [] ∨ new.length ≤ 2 ^ 64 - 1) ∧ movie.frames = new.mergeSort fun a b => a.frame ≤ b.frame := by
  unfold parseMovie parseMovieBounded
  simp only [bind_eq_ok, parseRows_eq_ok_iff, List.nil_append, List.length_nil, Nat.zero_add]
  constructor
  · rintro ⟨out, ⟨new, hnew, rfl, hbound⟩, h⟩
    obtain rfl := Except.ok.inj h
    exact ⟨out, hnew, hbound, rfl⟩
  · rintro ⟨new, hnew, hbound, hframes⟩
    refine ⟨new, ⟨new, hnew, rfl, hbound⟩, ?_⟩
    rw [← hframes]
    rfl

end rows

/-! ## The rows of the canonical form -/

theorem mem_of_seeButtons {expected : ℕ} {seen buttons out : List (List Char)}
    (h : seeButtons expected seen buttons = .ok out) (button : List Char) :
    button ∈ out ↔ button ∈ seen ∨ button ∈ buttons := by
  induction buttons generalizing seen with
  | nil =>
    obtain rfl := Except.ok.inj h
    simp
  | cons first rest ih =>
    rw [seeButtons, require_bind_eq_ok, require_bind_eq_ok] at h
    obtain ⟨-, -, h⟩ := h
    rw [ih h, (List.perm_orderedInsert (· ≤ ·) first seen).mem_iff, List.mem_cons, List.mem_cons]
    tauto

theorem canonicalRows_rows {maxButtons expected : ℕ} {frames out : List MovieFrame} {text : List Char}
    (h : canonicalRows maxButtons expected frames = .ok (out, text)) (haxes : ∀ frame ∈ frames, frame.axes = []) :
    out = rowFrames expected (out.map (·.buttons)) ∧
      List.Forall₂ (fun frame row => ∀ button, button ∈ row ↔ button ∈ frame.buttons) frames (out.map (·.buttons)) ∧
      frames.map (·.frame) = List.range' expected frames.length := by
  induction frames generalizing expected out text with
  | nil =>
    cases h
    exact ⟨rfl, .nil, rfl⟩
  | cons frame frames ih =>
    simp only [canonicalRows, bind_eq_ok, require_eq_ok, exists_const] at h
    obtain ⟨hoffset, -, buttons, hsee, ⟨tail, canonical⟩, htail, h⟩ := h
    cases h
    obtain ⟨hrows, hforall, hframes⟩ := ih htail fun f hf => haxes f (List.mem_cons_of_mem _ hf)
    refine ⟨?_, ?_, ?_⟩
    · rw [List.map_cons, rowFrames, ← hrows, hoffset, haxes frame List.mem_cons_self]
    · rw [List.map_cons]
      refine .cons (fun button => ?_) hforall
      simp [mem_of_seeButtons hsee]
    · rw [List.map_cons, hframes, List.length_cons, List.range'_succ, hoffset]

theorem map_frame_rowFrames (expected : ℕ) (rows : List (List (List Char))) :
    (rowFrames expected rows).map (·.frame) = List.range' expected rows.length := by
  induction rows generalizing expected with
  | nil => rfl
  | cons row rows ih => rw [rowFrames, List.map_cons, ih, List.length_cons, List.range'_succ]

/-! ## What a text denotes -/

/-- The buttons that are pressed in a frame, where the movie has a row for it. -/
def pressed (movie : Movie) (frame : ℕ) : Option (Finset (List Char)) :=
  (movie.frames.find? fun row => row.frame == frame).map fun row => row.buttons.toFinset

/-- The function from frames to sets of buttons that a text denotes. -/
def denotes (decode : List Char → Except String ControllerRow) (text : List Char) (frame : ℕ) :
    Option (Finset (List Char)) :=
  (parseMovie decode text).toOption.bind fun movie => pressed movie frame

theorem find?_frame {frames : List MovieFrame} {expected : ℕ}
    (h : frames.map (·.frame) = List.range' expected frames.length) (k : ℕ) :
    frames.find? (fun row => row.frame == expected + k) = frames[k]? := by
  induction frames generalizing expected k with
  | nil => rfl
  | cons frame frames ih =>
    rw [List.map_cons, List.length_cons, List.range'_succ, List.cons.injEq] at h
    obtain ⟨hframe, hrest⟩ := h
    cases k with
    | zero => rw [List.find?_cons_of_pos (by simp [hframe])]; rfl
    | succ k =>
      rw [List.find?_cons_of_neg (by simp [hframe]), List.getElem?_cons_succ, ← ih hrest k]
      congr 2
      funext row
      rw [Nat.add_right_comm, Nat.add_assoc]

theorem pressed_eq {frames : List MovieFrame} {rows : List (List (List Char))}
    (hframes : frames.map (·.frame) = List.range' 0 frames.length)
    (hrows : List.Forall₂ (fun frame row => ∀ button, button ∈ row ↔ button ∈ frame.buttons) frames rows) (k : ℕ) :
    pressed ⟨frames⟩ k = rows[k]?.map List.toFinset := by
  have hfind := find?_frame hframes k
  rw [Nat.zero_add] at hfind
  rw [pressed, hfind]
  clear hfind hframes
  induction hrows generalizing k with
  | nil => rfl
  | cons hrow _ ih =>
    cases k with
    | zero =>
      simp only [List.getElem?_cons_zero, Option.map_some, Option.some.injEq]
      ext button
      rw [List.mem_toFinset, List.mem_toFinset, hrow]
    | succ k => exact ih k

theorem rows_eq_of_sets {maxButtons maxButtons' : ℕ} {rows rows' : List (List (List Char))}
    (hrows : ∀ row ∈ rows, ValidRow maxButtons row) (hrows' : ∀ row ∈ rows', ValidRow maxButtons' row)
    (h : ∀ k : ℕ, rows[k]?.map List.toFinset = rows'[k]?.map List.toFinset) : rows = rows' := by
  apply List.ext_getElem?
  intro k
  have hk := h k
  cases hrow : rows[k]? with
  | none =>
    rw [hrow, Option.map_none] at hk
    exact (Option.map_eq_none_iff.mp hk.symm).symm
  | some row =>
    rw [hrow, Option.map_some] at hk
    obtain ⟨row', hrow', hset⟩ := Option.map_eq_some_iff.mp hk.symm
    rw [hrow', Option.some.injEq]
    have hincreasing := (hrows row (List.mem_of_getElem? hrow)).increasing
    have hincreasing' := (hrows' row' (List.mem_of_getElem? hrow')).increasing
    have hperm : row.Perm row' := by
      rw [List.perm_ext_iff_of_nodup (hincreasing.imp ne_of_lt) (hincreasing'.imp ne_of_lt)]
      intro button
      rw [← List.mem_toFinset, ← List.mem_toFinset, hset]
    exact hperm.eq_of_pairwise (fun a b _ _ hab hba => absurd hab (lt_asymm hba)) hincreasing hincreasing'

/-! ## The canonical form -/

section canonical
variable {decode : List Char → Except String ControllerRow} {text : List Char} {frames : UInt64} {maxButtons : ℕ}
  {m : CanonicalMovie}

/-- What a text and its canonical form have in common. -/
structure CanonicalOf (decode : List Char → Except String ControllerRow) (text : List Char) (frames : UInt64)
    (maxButtons : ℕ) (m : CanonicalMovie) : Prop where
  movie : m.movie = ⟨rowFrames 0 m.rows⟩
  bytes : m.bytes = render 0 m.rows
  valid : ∀ row ∈ m.rows, ValidRow maxButtons row
  count : m.rows.length = frames.toNat
  positive : frames ≠ 0
  denoted : ∀ k, denotes decode text k = m.rows[k]?.map List.toFinset

theorem canonicalOf (h : canonicalRecordingMovie decode text frames maxButtons = .ok m) :
    CanonicalOf decode text frames maxButtons m := by
  obtain ⟨hbytes, hvalid, hcount, hpositive⟩ := canonicalRecordingMovie_eq_ok h
  simp only [canonicalRecordingMovie, bind_eq_ok, require_eq_ok, exists_const] at h
  obtain ⟨movie, hparse, -, hlength, haxes, ⟨out, canonical⟩, hrows, h⟩ := h
  obtain rfl := Except.ok.inj h
  obtain ⟨hout, hforall, hframes⟩ := canonicalRows_rows hrows haxes
  refine ⟨congrArg Movie.mk hout, hbytes, fun row hrow => ?_, ?_, hpositive, fun k => ?_⟩
  · obtain ⟨frame, hframe, rfl⟩ := List.mem_map.mp hrow
    exact hvalid frame hframe
  · rw [CanonicalMovie.rows, List.length_map]
    exact hcount
  · rw [denotes, hparse]
    exact pressed_eq hframes hforall k

/-! ## Rows in another order -/

theorem map_eq_map_some_iff {α β : Type} {f : α → Option β} {l : List α} {new : List β} :
    l.map f = new.map some ↔ (∀ a ∈ l, (f a).isSome = true) ∧ new = l.filterMap f := by
  induction l generalizing new with
  | nil =>
    rw [List.map_nil, List.filterMap_nil, eq_comm, List.map_eq_nil_iff]
    simp
  | cons a l ih =>
    rw [List.map_cons, List.forall_mem_cons]
    cases ha : f a with
    | none =>
      constructor
      · intro h
        cases new with
        | nil => cases h
        | cons b new => cases h
      · rintro ⟨⟨h, -⟩, -⟩
        cases h
    | some b =>
      rw [List.filterMap_cons_some ha]
      constructor
      · intro h
        cases new with
        | nil => cases h
        | cons c new =>
          obtain ⟨hb, hrest⟩ := List.cons.inj h
          obtain ⟨hall, hnew⟩ := ih.mp hrest
          rw [Option.some.inj hb, hnew]
          exact ⟨⟨rfl, hall⟩, rfl⟩
      · rintro ⟨⟨-, hall⟩, rfl⟩
        rw [List.map_cons, ih.mpr ⟨hall, rfl⟩]

theorem mergeSort_eq_of_perm {new new' : List MovieFrame} (hperm : new'.Perm new)
    (hdistinct : (new.map (·.frame)).Nodup) :
    new'.mergeSort (fun a b => a.frame ≤ b.frame) = new.mergeSort fun a b => a.frame ≤ b.frame := by
  have hsorted : ∀ l : List MovieFrame,
      (l.mergeSort fun a b => a.frame ≤ b.frame).Pairwise fun a b => decide (a.frame ≤ b.frame) = true := by
    intro l
    apply List.pairwise_mergeSort
    · intro a b c hab hbc
      simp only [decide_eq_true_eq] at hab hbc ⊢
      omega
    · intro a b
      simp only [Bool.or_eq_true, decide_eq_true_eq]
      omega
  refine List.Perm.eq_of_pairwise (fun a b ha hb hab hba => ?_) (hsorted new') (hsorted new)
    ((List.mergeSort_perm _ _).trans (hperm.trans (List.mergeSort_perm _ _).symm))
  rw [decide_eq_true_eq] at hab hba
  have ha : a ∈ new := hperm.mem_iff.mp (List.mem_mergeSort.mp ha)
  exact List.inj_on_of_nodup_map hdistinct ha (List.mem_mergeSort.mp hb) (le_antisymm hab hba)

theorem parseMovie_of_perm {text' : List Char} {movie : Movie} (h : parseMovie decode text = .ok movie)
    (hframes : (movie.frames.map (·.frame)).Nodup) (hperm : (rowsOf text').Perm (rowsOf text)) :
    parseMovie decode text' = .ok movie := by
  obtain ⟨new, hnew, hbound, hmovie⟩ := (parseMovie_eq_ok_iff).mp h
  obtain ⟨hall, rfl⟩ := (map_eq_map_some_iff).mp hnew
  have hnew' := hperm.filterMap (parseRow decode)
  refine (parseMovie_eq_ok_iff).mpr ⟨(rowsOf text').filterMap (parseRow decode),
    (map_eq_map_some_iff).mpr ⟨fun raw hraw => hall raw (hperm.mem_iff.mp hraw), rfl⟩, ?_, ?_⟩
  · rw [hnew'.length_eq]
    refine hbound.imp_left fun hnil => ?_
    rw [hnil] at hnew'
    exact List.perm_nil.mp hnew'
  · rw [hmovie, mergeSort_eq_of_perm hnew']
    rw [hmovie] at hframes
    exact ((List.mergeSort_perm _ _).map _).nodup_iff.mp hframes

/-- The canonical form of a recording movie. For a text that has one: the canonical text parses to the canonical
movie and is its own canonical form; the movie has one row for each frame from zero on, with its buttons in
increasing order; two texts have the same canonical text exactly if they denote the same function from frames to
sets of buttons; and the rows may come in any order. -/
theorem canonical_recording_movie (decode : List Char → Except String ControllerRow) (text : List Char)
    (frames : UInt64) (maxButtons : ℕ) (m : CanonicalMovie)
    (h : canonicalRecordingMovie decode text frames maxButtons = .ok m) :
    parseMovie decode m.bytes = .ok m.movie ∧
    canonicalRecordingMovie decode m.bytes frames maxButtons = .ok m ∧
    (m.movie.frames.map (·.frame) = List.range frames.toNat ∧
      ∀ row ∈ m.movie.frames, row.buttons.Pairwise (· < ·) ∧ row.buttons.Nodup) ∧
    (∀ text' frames' maxButtons' m', canonicalRecordingMovie decode text' frames' maxButtons' = .ok m' →
      (m.bytes = m'.bytes ↔ ∀ frame, denotes decode text frame = denotes decode text' frame)) ∧
    ∀ text', (rowsOf text').Perm (rowsOf text) →
      canonicalRecordingMovie decode text' frames maxButtons = .ok m := by
  have hcanonical := canonicalOf h
  have hreads := reads_rowLines hcanonical.valid 0
  have hbytes : m.bytes = unlines (rowLines 0 m.rows) := by rw [unlines_rowLines, hcanonical.bytes]
  have hparse := parseMovie_of_reads decode hreads (hcanonical.count ▸ frames.toNat_lt)
  have hm : m = ⟨⟨rowFrames 0 m.rows⟩, render 0 m.rows⟩ := by
    rw [← hcanonical.movie, ← hcanonical.bytes]
  refine ⟨?_, ?_, ⟨?_, fun row hrow => ?_⟩, fun text' frames' maxButtons' m' h' => ?_, fun text' hperm => ?_⟩
  · rw [hbytes, hparse, hcanonical.movie]
  · rw [hbytes, canonicalRecordingMovie_of_reads decode hreads hcanonical.positive hcanonical.count, ← hm]
  · rw [hcanonical.movie, map_frame_rowFrames, hcanonical.count, List.range_eq_range']
  · have hrow := hcanonical.valid row.buttons (List.mem_map_of_mem hrow)
    exact ⟨hrow.increasing, hrow.increasing.imp ne_of_lt⟩
  · have hcanonical' := canonicalOf h'
    simp only [hcanonical.denoted, hcanonical'.denoted]
    constructor
    · intro heq
      have hparse' := parseMovie_of_reads decode (reads_rowLines hcanonical'.valid 0)
        (hcanonical'.count ▸ frames'.toNat_lt)
      rw [unlines_rowLines, ← hcanonical'.bytes, ← heq, hbytes, hparse] at hparse'
      have hrows := congrArg (fun movie => movie.frames.map (·.buttons)) (Except.ok.inj hparse')
      simp only [map_buttons_rowFrames] at hrows
      exact fun frame => by rw [hrows]
    · intro hsets
      rw [hcanonical.bytes, hcanonical'.bytes, rows_eq_of_sets hcanonical.valid hcanonical'.valid hsets]
  · have hsteps := h
    simp only [canonicalRecordingMovie, bind_eq_ok, require_eq_ok, exists_const] at hsteps ⊢
    obtain ⟨movie, hmovie, hrest⟩ := hsteps
    refine ⟨movie, parseMovie_of_perm hmovie ?_ hperm, hrest⟩
    obtain ⟨-, -, haxes, ⟨out, canonical⟩, hrows, -⟩ := hrest
    rw [(canonicalRows_rows hrows haxes).2.2]
    exact List.nodup_range'

end canonical

theorem canonical_recording_movie_two :
    canonicalRecordingMovie (fun _ => .error "no controller state") "1:b\n\n0:a\n".toList 2 32 =
      .ok ⟨⟨[⟨0, [['a']], []⟩, ⟨1, [['b']], []⟩]⟩, "0:a\n1:b\n".toList⟩ := by
  have hrows : ∀ row ∈ [[['a']], [['b']]], ValidRow 32 row := by
    intro row hrow
    rcases List.mem_cons.mp hrow with rfl | hrow
    · exact ⟨by decide, by simp, by decide⟩
    · rw [List.mem_singleton.mp hrow]
      exact ⟨by decide, by simp, by decide⟩
  have h := canonicalRecordingMovie_of_reads (fun _ => .error "no controller state") (reads_rowLines hrows 0)
    (show (2 : UInt64) ≠ 0 by decide) rfl
  exact (canonical_recording_movie _ _ _ _ _ h).2.2.2.2 _ (by decide +kernel)

end Emucap.InputMovie
