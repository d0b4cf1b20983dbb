import Emucap.Lib.Checked
import Emucap.Media.FileCalls

/-!
# Portable member names

The accepted member names are those of at most 4096 bytes whose first piece between slashes is a portable component and
whose other pieces are portable components, empty or a dot (`isPortableRelativeMember_iff`). Such a name is a path below
whatever root it is joined to, and below the directory of another such name.
-/

namespace Emucap.Media

open Emucap.Lib

/-! ## Names below a descriptor -/

/-- The name of a member that the descriptor called `descriptor` declares as `child`. -/
def nestedName (descriptor child : String) : String :=
  match rsplitOnce '/' descriptor.toList with
  | some (parent, _) => String.ofList parent ++ "/" ++ child
  | none => child

def portableJoin (parentEntry child : String) : Except IoError String := do
  require (isPortableRelativeMember child) (invalidData "indirect media member path is not portable")
  let parent := ((rsplitOnce '/' parentEntry.toList).map fun split => String.ofList split.1).getD ""
  let joined := if parent = "" then child else parent ++ "/" ++ child
  require (isPortableRelativeMember joined) (invalidData "nested indirect media member path is not portable")
  return joined

/-! ## Pieces -/

def pieces (value : String) : List String := (value.toList.splitOn '/').map String.ofList

/-- The pieces that count as components behind the first one. -/
def namedPieces (value : String) : List String := (pieces value).filter fun piece => piece != "" && piece != "."

structure PortableComponent (component : String) : Prop where
  nonempty : component ≠ ""
  bytes : component.utf8ByteSize ≤ 255
  dots : component ≠ "." ∧ component ≠ ".."
  last : component.toList.getLast? ≠ some '.' ∧ component.toList.getLast? ≠ some ' '
  chars : ∀ c ∈ component.toList, 0x1f < c.toNat ∧ c ∉ ['<', '>', ':', '"', '/', '\\', '|', '?', '*']
  stem : isWindowsReservedComponent component = false

theorem isPortableComponent_iff {component : String} :
    isPortableComponent component = true ↔ PortableComponent component := by
  unfold isPortableComponent
  simp only [Bool.and_eq_true, decide_eq_true_eq, Bool.not_eq_true', Bool.or_eq_false_iff, beq_eq_false_iff_ne,
    List.all_eq_true, List.contains_eq_mem, decide_eq_false_iff_not]
  constructor
  · rintro ⟨⟨⟨⟨hne, hbytes⟩, hlast⟩, hchars⟩, hstem⟩
    refine ⟨hne, hbytes, ⟨?_, ?_⟩, hlast, hchars, hstem⟩
    · rintro rfl
      exact hlast.1 rfl
    · rintro rfl
      exact hlast.1 rfl
  · intro h
    exact ⟨⟨⟨⟨h.nonempty, h.bytes⟩, h.last⟩, h.chars⟩, h.stem⟩

def JoinedPortable (value : String) : Prop :=
  value.utf8ByteSize ≤ 4096 ∧ ∀ piece ∈ pieces value, PortableComponent piece

/-- The pieces of an accepted name: the first one is a component, the others are or are passed over. -/
structure PortablePieces (value : String) (first : String) (rest : List String) : Prop where
  pieces : pieces value = first :: rest
  first : PortableComponent first
  rest : ∀ piece ∈ rest, piece = "" ∨ piece = "." ∨ PortableComponent piece

theorem pieces_ne_nil (value : String) : pieces value ≠ [] := by
  rw [pieces, ne_eq, List.map_eq_nil_iff]
  exact List.splitOn_ne_nil _ _

theorem head_pieces_eq_empty {value : String} :
    (pieces value).head? = some "" ↔ value = "" ∨ value.toList.head? = some '/' := by
  rw [pieces, List.head?_map]
  have hnil : value = "" ↔ value.toList = [] := by
    rw [← String.toList_inj]
    rfl
  rw [hnil]
  cases value.toList with
  | nil => simp
  | cons c cs =>
    rw [List.splitOn_cons_eq_if_modifyHead]
    by_cases hc : c = '/'
    · simp [hc]
    · have hsplit : cs.splitOn '/' ≠ [] := List.splitOn_ne_nil _ _
      cases hcs : cs.splitOn '/' with
      | nil => exact absurd hcs hsplit
      | cons piece pieces =>
        simp only [beq_iff_eq, hc, if_false, List.modifyHead_cons, List.head?_cons, Option.map_some,
          Option.some.injEq, reduceCtorEq, false_or, iff_false]
        intro h
        have := congrArg String.toList h
        simp at this

theorem intercalate_pieces (value : String) :
    value.toList = ['/'].intercalate (value.toList.splitOn '/') := (List.intercalate_splitOn '/').symm

theorem pieces_inj {value other : String} (h : pieces value = pieces other) : value = other := by
  have hsplit : value.toList.splitOn '/' = other.toList.splitOn '/' := by
    refine List.map_injective_iff.mpr ?_ h
    intro a b hab
    simpa using congrArg String.toList hab
  rw [← String.toList_inj, intercalate_pieces value, intercalate_pieces other, hsplit]

theorem pieces_append (front back : String) : pieces (front ++ "/" ++ back) = pieces front ++ pieces back := by
  have htext : (front ++ "/" ++ back).toList = front.toList ++ '/' :: back.toList := by simp
  rw [pieces, htext, List.splitOn_append_cons_self, List.map_append]
  rfl

/-! ## Accepted names -/

theorem components_new {value first : String} {rest : List String} (hpieces : pieces value = first :: rest)
    (hfirst : first ≠ "") : (FsPath.new value).rooted = false ∧ (FsPath.new value).components =
      if first = "." then "." :: namedPieces value else namedPieces value := by
  have hempty : (pieces value).head? = some "" ↔ value = "" ∨ _ := head_pieces_eq_empty
  rw [hpieces, List.head?_cons, Option.some.injEq] at hempty
  have hrooted : (value.toList.head? == some '/') = false := by
    rw [beq_eq_false_iff_ne]
    exact fun h => hfirst (hempty.mpr (.inr h))
  have hhead : (((value.toList.splitOn '/').map String.ofList).head? == some ".") = decide (first = ".") := by
    have : (value.toList.splitOn '/').map String.ofList = first :: rest := hpieces
    rw [this]
    simp [beq_eq_decide]
  unfold FsPath.new
  simp only [hrooted, hhead]
  refine ⟨trivial, ?_⟩
  by_cases hdot : first = "."
  · simp [hdot, namedPieces, pieces]
  · simp [hdot, namedPieces, pieces]

theorem isPortableRelativeMember_iff {value : String} : isPortableRelativeMember value = true ↔
    value.utf8ByteSize ≤ 4096 ∧ ∃ first rest, PortablePieces value first rest := by
  cases hpieces : pieces value with
  | nil => exact absurd hpieces (pieces_ne_nil value)
  | cons first rest =>
    have hempty : (pieces value).head? = some "" ↔ value = "" ∨ _ := head_pieces_eq_empty
    rw [hpieces, List.head?_cons, Option.some.injEq] at hempty
    unfold isPortableRelativeMember
    simp only [Bool.and_eq_true, decide_eq_true_eq, Bool.not_eq_true', List.all_eq_true, bne_iff_ne]
    constructor
    · rintro ⟨⟨⟨⟨hne, hbytes⟩, -⟩, hrooted⟩, hall⟩
      have hfirst : first ≠ "" := by
        intro h
        rcases hempty.mp h with h | h
        · exact hne h
        · simp [FsPath.new, h] at hrooted
      obtain ⟨-, hcomponents⟩ := components_new hpieces hfirst
      rw [hcomponents] at hall
      have hdot : first ≠ "." := by
        intro h
        rw [if_pos h] at hall
        exact (hall "." List.mem_cons_self).1.1 rfl
      rw [if_neg hdot] at hall
      have hnamed : ∀ piece ∈ pieces value, piece ≠ "" → piece ≠ "." → PortableComponent piece := by
        intro piece hpiece hne hdot
        refine (isPortableComponent_iff).mp (hall piece (List.mem_filter.mpr ⟨hpiece, ?_⟩)).2
        simp [hne, hdot]
      rw [hpieces] at hnamed
      refine ⟨hbytes, first, rest, hpieces, hnamed first List.mem_cons_self hfirst hdot, fun piece hpiece => ?_⟩
      by_cases hne : piece = ""
      · exact .inl hne
      · by_cases hdot : piece = "."
        · exact .inr (.inl hdot)
        · exact .inr (.inr (hnamed piece (List.mem_cons_of_mem _ hpiece) hne hdot))
    · rintro ⟨hbytes, first', rest', hvalue⟩
      rw [hvalue.pieces] at hpieces
      obtain ⟨rfl, rfl⟩ := List.cons.inj hpieces
      obtain ⟨hrooted, hcomponents⟩ := components_new hvalue.pieces hvalue.first.nonempty
      rw [if_neg hvalue.first.dots.1] at hcomponents
      refine ⟨⟨⟨⟨?_, hbytes⟩, ?_⟩, hrooted⟩, ?_⟩
      · rintro rfl
        exact hvalue.first.nonempty (hempty.mpr (.inl rfl))
      · rw [List.contains_eq_mem, decide_eq_false_iff_not]
        intro hmem
        rw [intercalate_pieces value] at hmem
        obtain hslash | ⟨piece, hpiece, hin⟩ := mem_intercalate hmem
        · cases hslash
        · have hmemPiece : String.ofList piece ∈ pieces value := List.mem_map_of_mem hpiece
          rw [hvalue.pieces] at hmemPiece
          have hchars : ∀ component, PortableComponent component → '\\' ∉ component.toList := by
            intro component hcomponent hc
            exact (hcomponent.chars _ hc).2 (by decide)
          have htext : '\\' ∈ (String.ofList piece).toList := by rwa [String.toList_ofList]
          rcases List.mem_cons.mp hmemPiece with heq | htail
          · exact hchars _ hvalue.first (heq ▸ htext)
          · rcases hvalue.rest _ htail with heq | heq | hcomponent
            · rw [heq] at htext
              cases htext
            · rw [heq] at htext
              revert htext
              decide
            · exact hchars _ hcomponent htext
      · intro piece hpiece
        rw [hcomponents] at hpiece
        obtain ⟨hmem, hnamed⟩ := List.mem_filter.mp hpiece
        rw [hvalue.pieces] at hmem
        have hcomponent : PortableComponent piece := by
          rcases List.mem_cons.mp hmem with rfl | htail
          · exact hvalue.first
          · rcases hvalue.rest _ htail with rfl | rfl | hcomponent
            · simp at hnamed
            · simp at hnamed
            · exact hcomponent
        exact ⟨⟨hcomponent.dots.1, hcomponent.dots.2⟩, (isPortableComponent_iff).mpr hcomponent⟩

section accepted
variable {value : String}

theorem components_of_accepted (h : isPortableRelativeMember value = true) :
    FsPath.new value = ⟨false, namedPieces value⟩ := by
  obtain ⟨-, first, rest, hpieces⟩ := (isPortableRelativeMember_iff).mp h
  obtain ⟨hrooted, hcomponents⟩ := components_new hpieces.pieces hpieces.first.nonempty
  rw [if_neg hpieces.first.dots.1] at hcomponents
  rw [← hrooted, ← hcomponents]

theorem namedPieces_of_accepted (h : isPortableRelativeMember value = true) :
    namedPieces value ≠ [] ∧ ∀ piece ∈ namedPieces value, PortableComponent piece := by
  obtain ⟨-, first, rest, hpieces⟩ := (isPortableRelativeMember_iff).mp h
  constructor
  · have hmem : first ∈ namedPieces value := by
      rw [namedPieces, hpieces.pieces, List.mem_filter]
      exact ⟨List.mem_cons_self, by simp [hpieces.first.nonempty, hpieces.first.dots.1]⟩
    exact List.ne_nil_of_mem hmem
  · intro piece hpiece
    obtain ⟨hmem, hnamed⟩ := List.mem_filter.mp hpiece
    rw [hpieces.pieces] at hmem
    rcases List.mem_cons.mp hmem with rfl | htail
    · exact hpieces.first
    · rcases hpieces.rest _ htail with rfl | rfl | hcomponent
      · simp at hnamed
      · simp at hnamed
      · exact hcomponent

theorem JoinedPortable.accepted (h : JoinedPortable value) :
    isPortableRelativeMember value = true ∧ namedPieces value = pieces value := by
  obtain ⟨hbytes, hall⟩ := h
  constructor
  · rw [isPortableRelativeMember_iff]
    refine ⟨hbytes, ?_⟩
    cases hpieces : pieces value with
    | nil => exact absurd hpieces (pieces_ne_nil value)
    | cons first rest =>
      rw [hpieces] at hall
      exact ⟨first, rest, hpieces, hall first List.mem_cons_self,
        fun piece hpiece => .inr (.inr (hall piece (List.mem_cons_of_mem _ hpiece)))⟩
  · rw [namedPieces, List.filter_eq_self]
    intro piece hpiece
    simp [(hall piece hpiece).nonempty, (hall piece hpiece).dots.1]

theorem join_accepted (root : FsPath) (h : isPortableRelativeMember value = true) :
    root.join value = ⟨root.rooted, root.components ++ namedPieces value⟩ := by
  rw [FsPath.join, components_of_accepted h]
  rfl

end accepted

/-! ## Nested names -/

theorem nestedName_accepted {parent child : String} (hparent : isPortableRelativeMember parent = true)
    (hchild : isPortableRelativeMember child = true) (hbytes : (nestedName parent child).utf8ByteSize ≤ 4096) :
    isPortableRelativeMember (nestedName parent child) = true ∧
      portableJoin parent child = .ok (nestedName parent child) := by
  have haccepted : isPortableRelativeMember (nestedName parent child) = true ∧
      ∀ front back, rsplitOnce '/' parent.toList = some (front, back) → String.ofList front ≠ "" := by
    unfold nestedName at hbytes ⊢
    cases hsplit : rsplitOnce '/' parent.toList with
    | none => exact ⟨hchild, fun front back h => (by cases h)⟩
    | some split =>
      obtain ⟨front, back⟩ := split
      rw [hsplit] at hbytes
      have htext : parent = String.ofList front ++ "/" ++ String.ofList back := by
        rw [← String.toList_inj, rsplitOnce_eq_some hsplit]
        simp
      obtain ⟨-, first, rest, hpieces⟩ := (isPortableRelativeMember_iff).mp hparent
      obtain ⟨-, first', rest', hpieces'⟩ := (isPortableRelativeMember_iff).mp hchild
      have hsum := hpieces.pieces
      rw [htext, pieces_append] at hsum
      cases hfront : pieces (String.ofList front) with
      | nil => exact absurd hfront (pieces_ne_nil _)
      | cons head tail =>
        rw [hfront, List.cons_append, List.cons.injEq] at hsum
        obtain ⟨rfl, hrest⟩ := hsum
        constructor
        · refine (isPortableRelativeMember_iff).mpr ⟨hbytes, head, tail ++ first' :: rest', ?_, hpieces.first, ?_⟩
          · show pieces (String.ofList front ++ "/" ++ child) = _
            rw [pieces_append, hfront, hpieces'.pieces, List.cons_append]
          · intro piece hpiece
            rcases List.mem_append.mp hpiece with hpiece | hpiece
            · exact hpieces.rest piece (hrest ▸ List.mem_append_left _ hpiece)
            · rcases List.mem_cons.mp hpiece with rfl | hpiece
              · exact .inr (.inr hpieces'.first)
              · exact hpieces'.rest piece hpiece
        · rintro front' back' h hempty
          cases h
          have hhead := (head_pieces_eq_empty).mpr (.inl hempty)
          rw [hfront, List.head?_cons, Option.some.injEq] at hhead
          exact hpieces.first.nonempty hhead
  refine ⟨haccepted.1, ?_⟩
  unfold portableJoin
  rw [require_bind_eq_ok]
  refine ⟨hchild, ?_⟩
  have hjoined : (if ((rsplitOnce '/' parent.toList).map fun split => String.ofList split.1).getD "" = "" then child
      else ((rsplitOnce '/' parent.toList).map fun split => String.ofList split.1).getD "" ++ "/" ++ child) =
      nestedName parent child := by
    unfold nestedName
    cases hsplit : rsplitOnce '/' parent.toList with
    | none => rfl
    | some split => exact if_neg (haccepted.2 split.1 split.2 hsplit)
  simp only [hjoined]
  rw [require_bind_eq_ok]
  exact ⟨haccepted.1, rfl⟩

theorem pieces_of_no_slash {value : String} (h : '/' ∉ value.toList) : pieces value = [value] := by
  rw [pieces, List.splitOn_eq_singleton h, List.map_singleton, String.ofList_toList]

/-- It does not end in a slash, or in a slash and a dot. -/
def endsInName (value : String) : Bool := (pieces value).getLast?.any fun piece => piece != "" && piece != "."

/-- The name of a member, by its pieces: below the directory of the descriptor where the name of the descriptor
ends in a name, and below the descriptor itself where it does not. -/
theorem namedPieces_nestedName {parent : String} (hparent : isPortableRelativeMember parent = true)
    (child : String) : namedPieces (nestedName parent child) =
      (if endsInName parent then (namedPieces parent).dropLast else namedPieces parent) ++ namedPieces child := by
  rw [nestedName]
  cases hsplit : rsplitOnce '/' parent.toList with
  | none =>
    have hpieces := pieces_of_no_slash (rsplitOnce_eq_none_iff.mp hsplit)
    obtain ⟨-, first, rest, haccepted⟩ := (isPortableRelativeMember_iff).mp hparent
    have heq := hpieces.symm.trans haccepted.pieces
    obtain ⟨rfl, -⟩ := List.cons.inj heq
    have hnamed : (parent != "" && parent != ".") = true := by
      simp [haccepted.first.nonempty, haccepted.first.dots.1]
    have hends : endsInName parent = true := by
      rw [endsInName, hpieces]
      exact hnamed
    have hself : namedPieces parent = [parent] := by
      rw [namedPieces, hpieces]
      exact List.filter_eq_self.mpr fun piece hpiece => List.mem_singleton.mp hpiece ▸ hnamed
    rw [if_pos hends, hself]
    rfl
  | some split =>
    obtain ⟨front, back⟩ := split
    have htext : parent = String.ofList front ++ "/" ++ String.ofList back := by
      rw [← String.toList_inj, rsplitOnce_eq_some hsplit]
      simp
    have hback : pieces (String.ofList back) = [String.ofList back] := by
      refine pieces_of_no_slash ?_
      rw [String.toList_ofList]
      exact rsplitOnce_back hsplit
    have hpieces : pieces parent = pieces (String.ofList front) ++ [String.ofList back] := by
      rw [htext, pieces_append, hback]
    have hends : endsInName parent = (String.ofList back != "" && String.ofList back != ".") := by
      rw [endsInName, hpieces, List.getLast?_concat]
      rfl
    have hjoined : namedPieces (String.ofList front ++ "/" ++ child) =
        namedPieces (String.ofList front) ++ namedPieces child := by
      rw [namedPieces, pieces_append, List.filter_append]
      rfl
    dsimp only
    rw [hjoined]
    by_cases hnamed : (String.ofList back != "" && String.ofList back != ".") = true
    · have hself : namedPieces parent = namedPieces (String.ofList front) ++ [String.ofList back] := by
        rw [namedPieces, hpieces, List.filter_append]
        exact congrArg _ (List.filter_eq_self.mpr fun piece hpiece => List.mem_singleton.mp hpiece ▸ hnamed)
      rw [hends, if_pos hnamed, hself, List.dropLast_concat]
    · have hself : namedPieces parent = namedPieces (String.ofList front) := by
        rw [namedPieces, hpieces, List.filter_append]
        refine (congrArg _ (List.filter_eq_nil_iff.mpr fun piece hpiece => ?_)).trans (List.append_nil _)
        exact List.mem_singleton.mp hpiece ▸ hnamed
      rw [hends, if_neg hnamed, hself]

theorem components_nestedName {parent child : String} (hparent : isPortableRelativeMember parent = true)
    (hchild : isPortableRelativeMember child = true) :
    (FsPath.new (nestedName parent child)).components = namedPieces (nestedName parent child) := by
  rw [nestedName]
  cases hsplit : rsplitOnce '/' parent.toList with
  | none =>
    dsimp only
    rw [components_of_accepted hchild]
  | some split =>
    obtain ⟨front, back⟩ := split
    have htext : parent = String.ofList front ++ "/" ++ String.ofList back := by
      rw [← String.toList_inj, rsplitOnce_eq_some hsplit]
      simp
    obtain ⟨-, first, rest, hpieces⟩ := (isPortableRelativeMember_iff).mp hparent
    have hsum := hpieces.pieces
    rw [htext, pieces_append] at hsum
    cases hfront : pieces (String.ofList front) with
    | nil => exact absurd hfront (pieces_ne_nil _)
    | cons head tail =>
      rw [hfront, List.cons_append, List.cons.injEq] at hsum
      obtain ⟨rfl, -⟩ := hsum
      have hjoined : pieces (String.ofList front ++ "/" ++ child) = head :: (tail ++ pieces child) := by
        rw [pieces_append, hfront, List.cons_append]
      rw [(components_new hjoined hpieces.first.nonempty).2, if_neg hpieces.first.dots.1]

theorem nestedName_accepted_iff {parent child : String} (hparent : isPortableRelativeMember parent = true)
    (hchild : isPortableRelativeMember child = true) :
    isPortableRelativeMember (nestedName parent child) = true ↔ (nestedName parent child).utf8ByteSize ≤ 4096 :=
  ⟨fun h => ((isPortableRelativeMember_iff).mp h).1, fun h => (nestedName_accepted hparent hchild h).1⟩

/-! ## Identifiers and file names -/

theorem isHyphenatedAsciiId_chars {value : String} {maxBytes : ℕ} (h : isHyphenatedAsciiId value maxBytes = true) :
    ∀ c ∈ value.toList, c = '-' ∨ c.isAlphanum = true := by
  unfold isHyphenatedAsciiId at h
  simp only [Bool.and_eq_true, List.all_eq_true] at h
  intro c hc
  rw [← show List.intercalate ['-'] (value.toList.splitOn '-') = value.toList from List.intercalate_splitOn '-'] at hc
  obtain hdash | ⟨segment, hsegment, hin⟩ := mem_intercalate hc
  · exact .inl hdash
  · exact .inr ((h.1.2 segment hsegment).2 c hin)

theorem reserved_of_not_alphanum {c : Char} (h : c.isAlphanum = true) : 0x1f < c.toNat ∧
    c ∉ ['<', '>', ':', '"', '/', '\\', '|', '?', '*'] ∧ c ≠ '.' ∧ c ≠ ' ' := by
  have hcode := toNat_of_isAlphanum h
  refine ⟨by omega, ?_, ?_, ?_⟩
  · intro hmem
    simp only [List.mem_cons, List.not_mem_nil, or_false] at hmem
    rcases hmem with rfl | rfl | rfl | rfl | rfl | rfl | rfl | rfl | rfl <;> exact absurd h (by decide)
  · rintro rfl
    exact absurd h (by decide)
  · rintro rfl
    exact absurd h (by decide)

theorem component_of_hyphenated {value : String} {maxBytes : ℕ} (hmax : maxBytes ≤ 255)
    (h : isHyphenatedAsciiId value maxBytes = true) : pieces value = [value] ∧ PortableComponent value := by
  have hchars := isHyphenatedAsciiId_chars h
  have hsafe : ∀ c ∈ value.toList, 0x1f < c.toNat ∧ c ∉ ['<', '>', ':', '"', '/', '\\', '|', '?', '*'] ∧
      c ≠ '.' ∧ c ≠ ' ' := by
    intro c hc
    rcases hchars c hc with rfl | halnum
    · decide
    · exact reserved_of_not_alphanum halnum
  have hlast : value.toList.getLast? ≠ some '.' ∧ value.toList.getLast? ≠ some ' ' := by
    constructor
    · intro hdot
      exact (hsafe _ (List.mem_of_getLast? hdot)).2.2.1 rfl
    · intro hspace
      exact (hsafe _ (List.mem_of_getLast? hspace)).2.2.2 rfl
  unfold isHyphenatedAsciiId at h
  simp only [Bool.and_eq_true, decide_eq_true_eq, Bool.not_eq_true', String.isEmpty_eq_false_iff] at h
  obtain ⟨⟨⟨hne, hbytes⟩, -⟩, hstem⟩ := h
  refine ⟨pieces_of_no_slash fun hslash => (hsafe _ hslash).2.1 (by decide), hne, hbytes.trans hmax, ⟨?_, ?_⟩, hlast,
    fun c hc => ⟨(hsafe c hc).1, (hsafe c hc).2.1⟩, hstem⟩
  · rintro rfl
    exact hlast.1 rfl
  · rintro rfl
    exact hlast.1 rfl

theorem component_of_fileName {value : String} {maxBytes : ℕ} (h : isPortableFileName value maxBytes = true) :
    pieces value = [value] ∧ PortableComponent value := by
  unfold isPortableFileName at h
  simp only [Bool.and_eq_true, List.all_eq_true, Bool.or_eq_true, beq_iff_eq] at h
  obtain ⟨⟨⟨-, hchars⟩, haccepted⟩, -⟩ := h
  have hpieces : pieces value = [value] := by
    refine pieces_of_no_slash fun hslash => ?_
    rcases hchars _ hslash with ((h | h) | h) | h
    · revert h
      decide
    · cases h
    · cases h
    · cases h
  obtain ⟨-, first, rest, hvalue⟩ := (isPortableRelativeMember_iff).mp haccepted
  have hfirst := hvalue.pieces
  rw [hpieces] at hfirst
  obtain ⟨rfl, -⟩ := List.cons.inj hfirst
  exact ⟨hpieces, hvalue.first⟩

/-! ## Portable names -/

/-- Which names are accepted, which paths they denote, and what can be made of them. -/
theorem portable_member_names :
    (∀ value, isPortableRelativeMember value = true ↔
      value.utf8ByteSize ≤ 4096 ∧ ∃ first rest, PortablePieces value first rest) ∧
    (∀ value other, isPortableRelativeMember value = true → isPortableRelativeMember other = true →
      (FsPath.new value = FsPath.new other ↔ namedPieces value = namedPieces other)) ∧
    (∀ value other, JoinedPortable value → JoinedPortable other → value ≠ other →
      isPortableRelativeMember value = true ∧ isPortableRelativeMember other = true ∧
        FsPath.new value ≠ FsPath.new other) ∧
    (∀ (root : FsPath) value, isPortableRelativeMember value = true →
      root.join value = ⟨root.rooted, root.components ++ namedPieces value⟩ ∧ namedPieces value ≠ [] ∧
        ∀ piece ∈ namedPieces value, PortableComponent piece) ∧
    (∀ parent child, isPortableRelativeMember parent = true → isPortableRelativeMember child = true →
      (nestedName parent child).utf8ByteSize ≤ 4096 →
      isPortableRelativeMember (nestedName parent child) = true ∧
        portableJoin parent child = .ok (nestedName parent child)) ∧
    (∀ value maxBytes, maxBytes ≤ 255 → isHyphenatedAsciiId value maxBytes = true →
      pieces value = [value] ∧ PortableComponent value) ∧
    ∀ value maxBytes, isPortableFileName value maxBytes = true →
      pieces value = [value] ∧ PortableComponent value := by
  refine ⟨fun value => isPortableRelativeMember_iff, fun value other h h' => ?_, fun value other h h' hne => ?_,
    fun root value h => ⟨join_accepted root h, namedPieces_of_accepted h⟩,
    fun parent child hparent hchild hbytes => nestedName_accepted hparent hchild hbytes,
    fun value maxBytes hmax h => component_of_hyphenated hmax h, fun value maxBytes h => component_of_fileName h⟩
  · rw [components_of_accepted h, components_of_accepted h', FsPath.mk.injEq]
    exact and_iff_right rfl
  · obtain ⟨haccepted, hnamed⟩ := h.accepted
    obtain ⟨haccepted', hnamed'⟩ := h'.accepted
    refine ⟨haccepted, haccepted', fun heq => hne (pieces_inj ?_)⟩
    rw [components_of_accepted haccepted, components_of_accepted haccepted', FsPath.mk.injEq] at heq
    rw [← hnamed, ← hnamed', heq.2]

/-- A slash too many: the name is accepted, and denotes the path of another one. -/
theorem portable_names_not_joined :
    (¬ ∀ value, isPortableRelativeMember value = true ↔ JoinedPortable value) ∧
    ¬ ∀ value other, isPortableRelativeMember value = true → isPortableRelativeMember other = true →
      value ≠ other → FsPath.new value ≠ FsPath.new other := by
  have haccepted : isPortableRelativeMember "disc//track.bin" = true := by decide +kernel
  constructor
  · intro h
    have hpiece : "" ∈ pieces "disc//track.bin" := by decide +kernel
    exact ((h "disc//track.bin").mp haccepted).2 "" hpiece |>.nonempty rfl
  · intro h
    exact h "disc//track.bin" "disc/track.bin" haccepted (by decide +kernel) (by decide) (by decide +kernel)

theorem portable_member_names_nested :
    isPortableRelativeMember (nestedName "discs/one.cue" "track 01.bin") = true ∧
      portableJoin "discs/one.cue" "track 01.bin" = .ok (nestedName "discs/one.cue" "track 01.bin") :=
  portable_member_names.2.2.2.2.1 "discs/one.cue" "track 01.bin" (by decide +kernel) (by decide +kernel)
    (by decide +kernel)

end Emucap.Media
