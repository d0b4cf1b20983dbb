import Emucap.Adapters.Mednafen.InputMovie
import Emucap.Adapters.Mesen2.InputMovie

/-!
# One movie, three readers

Both emulators read a canonical text as the rows that were published, and agree with the core on every text that they
accept. The Mesen reader also accepts blank lines and offsets with zeros in front.
-/

namespace Emucap.Adapters

open Emucap.Lib Emucap.InputMovie

/-- `canonical_recording_movie` returns the text unchanged. -/
def OwnCanonicalForm (decode : List Char → Except String ControllerRow) (text : List Char) (frames : UInt64) :
    Prop :=
  ∃ m, canonicalRecordingMovie decode text frames 32 = .ok m ∧ m.bytes = text

section readers
variable {decode : List Char → Except String ControllerRow} {text : List Char} {frames : UInt64}

theorem rows_of_canonical {m : CanonicalMovie} (h : canonicalRecordingMovie decode text frames 32 = .ok m) :
    m.bytes = unlines (rowLines 0 m.rows) ∧
      (∀ buttons ∈ m.rows, ValidRow 32 buttons) ∧
      m.rows.length = frames.toNat ∧ 1 ≤ frames.toNat := by
  obtain ⟨htext, hvalid, hcount, hpositive⟩ := canonicalRecordingMovie_eq_ok h
  refine ⟨htext.trans (unlines_rowLines _ _).symm, ?_, by simpa [CanonicalMovie.rows] using hcount, ?_⟩
  · intro buttons hbuttons
    obtain ⟨frame, hframe, rfl⟩ := List.mem_map.mp hbuttons
    exact hvalid frame hframe
  · exact Nat.one_le_iff_ne_zero.mpr fun hzero => hpositive (UInt64.toNat_inj.mp hzero)

theorem readMovie_canonical {m : CanonicalMovie} (h : canonicalRecordingMovie decode text frames 32 = .ok m)
    (hbytes : m.bytes.length ≤ Mesen2.maxMovieBytes) {openFile : List Char → Mesen2.MovieFile}
    {params : Mesen2.InputMovieParams} (hfile : openFile params.path = .opened m.bytes true)
    (hnames : Mesen2.Names params m.bytes frames.toNat) :
    Mesen2.readMovie openFile (some params) frames.toNat = .ok (some m.rows) := by
  obtain ⟨htext, hvalid, hcount, hframes⟩ := rows_of_canonical h
  rw [htext] at hfile hnames hbytes
  exact Mesen2.readMovie_of_reads hfile hnames (reads_rowLines hvalid 0) hcount hframes hbytes

theorem parse_canonical {m : CanonicalMovie} (h : canonicalRecordingMovie decode text frames 32 = .ok m)
    {lookup : Mednafen.ButtonLookup} {bit : List Char → Fin 16}
    (hlookup : Mednafen.DistinctBits lookup (fun b => ∃ buttons ∈ m.rows, b ∈ buttons) bit) :
    Mednafen.emucapParseRecordingInputMovie m.bytes frames (some lookup) =
      .ok (m.rows.map (Mednafen.unionBits lookup)) := by
  obtain ⟨htext, hvalid, hcount, hframes⟩ := rows_of_canonical h
  have hne : rowLines 0 m.rows ≠ [] := by
    intro hnil
    cases hrows : m.rows with
    | nil =>
      rw [hrows, List.length_nil] at hcount
      omega
    | cons buttons rows =>
      rw [hrows] at hnil
      cases hnil
  have hlast := getLast?_unlines hne
  have hpositive : ¬ frames < 1 := by
    rw [UInt64.lt_iff_toNat_lt]
    exact not_lt.mpr hframes
  rw [Mednafen.emucapParseRecordingInputMovie, require_bind_eq_ok, htext]
  refine ⟨?_, ?_⟩
  · rintro (hlt | hnil | hend)
    · exact hpositive hlt
    · rw [hnil] at hlast
      cases hlast
    · exact hend hlast
  · rw [unlines_rowLines, ← hcount]
    exact Mednafen.parseRows_render hlookup (fun buttons hb button hmem => ⟨buttons, hb, hmem⟩) hvalid 0

theorem canonical_of_parse {lookup : Option Mednafen.ButtonLookup} {masks : List (BitVec 16)}
    (h : Mednafen.emucapParseRecordingInputMovie text frames lookup = .ok masks) :
    ∃ m lookup', canonicalRecordingMovie decode text frames 32 = .ok m ∧ m.bytes = text ∧ lookup = some lookup' ∧
      masks = m.rows.map (Mednafen.unionBits lookup') := by
  cases lookup with
  | none => cases h
  | some lookup =>
    rw [Mednafen.emucapParseRecordingInputMovie, require_bind_eq_ok] at h
    obtain ⟨hargs, h⟩ := h
    obtain ⟨rows, rfl, hcount, hvalid, hmasks⟩ := Mednafen.parseRows_eq_ok h
    have hpositive : frames ≠ 0 := by
      rintro rfl
      exact hargs (.inl (by decide))
    have hcanonical := canonicalRecordingMovie_of_reads decode (reads_rowLines hvalid 0) hpositive hcount
    rw [unlines_rowLines] at hcanonical
    refine ⟨_, lookup, hcanonical, rfl, rfl, ?_⟩
    rw [hmasks, CanonicalMovie.rows, map_buttons_rowFrames]

theorem canonical_of_readMovie {openFile : List Char → Mesen2.MovieFile} {params : Mesen2.InputMovieParams}
    {closes : Bool} {rows : List (List (List Char))} (hframes : 1 ≤ frames)
    (hfile : openFile params.path = .opened text closes)
    (h : Mesen2.readMovie openFile (some params) frames.toNat = .ok (some rows)) :
    ∃ m, canonicalRecordingMovie decode text frames 32 = .ok m ∧ m.rows = rows ∧
      (m.bytes = text ↔ NoBlankLine text ∧ NoZeroPadding text) := by
  obtain ⟨ls, rfl, hreads, hcount⟩ := Mesen2.readMovie_eq_ok hfile h
  have hpositive : frames ≠ 0 := by
    rintro rfl
    exact absurd hframes (by decide)
  refine ⟨_, canonicalRecordingMovie_of_reads decode hreads hpositive hcount, ?_, hreads.eq_render_iff⟩
  rw [CanonicalMovie.rows, map_buttons_rowFrames]

/-- The three readers of a movie. The canonical form of a text is read by Mesen as its rows and by Mednafen as
the bits of its rows. A text that Mednafen accepts is its own canonical form. A text that Mesen accepts is its
own canonical form exactly where it has no blank line and no zero-padded offset; its rows are those of its
canonical form in any case, so the readers never see different inputs in one movie. -/
theorem movie_readers_agree (decode : List Char → Except String ControllerRow) (text : List Char)
    (frames : UInt64) :
    (∀ m, canonicalRecordingMovie decode text frames 32 = .ok m → m.bytes.length ≤ 1024 * 1024 →
      (∀ openFile params, openFile params.path = .opened m.bytes true →
        Mesen2.Names params m.bytes frames.toNat →
        Mesen2.readMovie openFile (some params) frames.toNat = .ok (some m.rows)) ∧
      (∀ lookup bit,
        Mednafen.DistinctBits lookup (fun b => ∃ buttons ∈ m.rows, b ∈ buttons) bit →
        Mednafen.emucapParseRecordingInputMovie m.bytes frames (some lookup) =
          .ok (m.rows.map (Mednafen.unionBits lookup)))) ∧
    (∀ lookup masks, Mednafen.emucapParseRecordingInputMovie text frames (some lookup) = .ok masks →
      OwnCanonicalForm decode text frames) ∧
    (∀ openFile params closes rows, 1 ≤ frames → openFile params.path = .opened text closes →
      Mesen2.readMovie openFile (some params) frames.toNat = .ok (some rows) →
      (OwnCanonicalForm decode text frames ↔ NoBlankLine text ∧ NoZeroPadding text) ∧
      (∃ m, canonicalRecordingMovie decode text frames 32 = .ok m ∧ m.rows = rows) ∧
      ∀ lookup masks, Mednafen.emucapParseRecordingInputMovie text frames (some lookup) = .ok masks →
        masks = rows.map (Mednafen.unionBits lookup)) := by
  refine ⟨fun m hm hbytes => ⟨fun openFile params hfile hnames => ?_, fun lookup bit hlookup => ?_⟩, ?_, ?_⟩
  · exact readMovie_canonical hm hbytes hfile hnames
  · exact parse_canonical hm hlookup
  · intro lookup masks h
    obtain ⟨m, -, hm, hbytes, -⟩ := canonical_of_parse h
    exact ⟨m, hm, hbytes⟩
  · intro openFile params closes rows hframes hfile h
    obtain ⟨m, hm, hrows, hiff⟩ := canonical_of_readMovie hframes hfile h
    refine ⟨⟨?_, fun hcond => ⟨m, hm, hiff.mpr hcond⟩⟩, ⟨m, hm, hrows⟩, ?_⟩
    · rintro ⟨m', hm', hbytes⟩
      obtain rfl : m = m' := by
        rw [hm] at hm'
        exact Except.ok.inj hm'
      exact hiff.mp hbytes
    · intro lookup masks hmasks
      obtain ⟨m', lookup', hm', -, hlookup, rfl⟩ := canonical_of_parse hmasks
      obtain rfl : m = m' := by
        rw [hm] at hm'
        exact Except.ok.inj hm'
      cases hlookup
      rw [hrows]

end readers

/-- The request for a movie file of `bytes` bytes and one frame. -/
def oneFrame (bytes : ℤ) : Mesen2.InputMovieParams where
  format := inputMovieFormat
  port := 0
  frames := 1
  bytes := bytes
  sha256 := List.replicate 64 'a'
  path := ['m']

/-- The offset `00` is read as zero by Mesen, which accepts the text; the canonical form writes `0`. -/
theorem movie_readers_padded :
    ¬ ∀ (decode : List Char → Except String ControllerRow) (text : List Char) (frames : UInt64)
      (openFile : List Char → Mesen2.MovieFile) (params : Mesen2.InputMovieParams)
      (rows : List (List (List Char))), 1 ≤ frames → openFile params.path = .opened text true →
      Mesen2.readMovie openFile (some params) frames.toNat = .ok (some rows) →
      OwnCanonicalForm decode text frames := by
  intro h
  obtain ⟨m, hm, hbytes⟩ := h (fun _ => .error "") ['0', '0', ':', 'a', '\n'] 1
    (fun _ => .opened ['0', '0', ':', 'a', '\n'] true) (oneFrame 5) [[['a']]] (by decide) rfl (by decide)
  have hcanonical : canonicalRecordingMovie (fun _ => .error "") ['0', '0', ':', 'a', '\n'] 1 32 =
      .ok ⟨⟨[⟨0, [['a']], []⟩]⟩, ['0', ':', 'a', '\n']⟩ := by
    decide +kernel
  rw [hcanonical] at hm
  cases hm
  exact absurd hbytes (by decide)

/-- The row `B,a` is published as `a,b`, which Mesen reads as the two names and Mednafen as the mask 3. -/
theorem movie_readers_agree_row :
    Mesen2.readMovie (fun _ => .opened ['0', ':', 'a', ',', 'b', '\n'] true) (some (oneFrame 6)) 1 =
        .ok (some [[['a'], ['b']]]) ∧
      Mednafen.emucapParseRecordingInputMovie ['0', ':', 'a', ',', 'b', '\n'] 1
        (some fun b => if b = ['a'] then some 1 else if b = ['b'] then some 2 else none) = .ok [3] := by
  have hcanonical : canonicalRecordingMovie (fun _ => .error "") ['0', ':', 'B', ',', 'a'] 1 32 =
      .ok ⟨⟨[⟨0, [['a'], ['b']], []⟩]⟩, ['0', ':', 'a', ',', 'b', '\n']⟩ := by
    decide +kernel
  obtain ⟨hmesen, hmednafen⟩ := (movie_readers_agree (fun _ => .error "") ['0', ':', 'B', ',', 'a'] 1).1 _
    hcanonical (by decide)
  refine ⟨hmesen _ (oneFrame 6) rfl ⟨rfl, rfl, rfl, rfl, by decide, by decide⟩, ?_⟩
  refine hmednafen (fun b => if b = ['a'] then some 1 else if b = ['b'] then some 2 else none)
    (fun b => if b = ['a'] then 0 else 1) ⟨?_, ?_⟩
  · rintro b ⟨buttons, hbuttons, hb⟩
    have hrow : buttons = [['a'], ['b']] := by simpa [CanonicalMovie.rows] using hbuttons
    subst hrow
    rcases List.mem_pair.mp hb with rfl | rfl
    · decide
    · decide
  · rintro b b' ⟨buttons, hbuttons, hb⟩ ⟨buttons', hbuttons', hb'⟩
    have hrow : buttons = [['a'], ['b']] := by simpa [CanonicalMovie.rows] using hbuttons
    have hrow' : buttons' = [['a'], ['b']] := by simpa [CanonicalMovie.rows] using hbuttons'
    subst hrow hrow'
    rcases List.mem_pair.mp hb with rfl | rfl <;> rcases List.mem_pair.mp hb' with rfl | rfl <;> simp

end Emucap.Adapters
