import Emucap.OpenmsxBridge.Breakpoints
import Mathlib.Algebra.GroupWithZero.Nat

/-!
# What openMSX writes, the bridge reads

The two texts that come back from the debugger are read back as what they were written from: the inventory as the set
of its points (`parseInventory_inventoryText`), and the line of a hit as the event of that hit
(`parseHitRecord_record`).
-/

namespace Emucap.OpenmsxBridge

open Emucap.Lib Emucap.OpenmsxBridge.Native

/-! ## Numbers -/

theorem isDigit_of_mem_decimal {n : ℕ} {c : Char} (h : c ∈ decimal n) : c.isDigit = true :=
  Nat.isDigit_of_mem_toDigits (by decide) (by decide) h

theorem decimal_ne_nil (n : ℕ) : decimal n ≠ [] := Nat.toDigits_ne_nil

theorem notMem_decimal {n : ℕ} {c : Char} (h : c.isDigit = false) : c ∉ decimal n := by
  intro hmem
  rw [isDigit_of_mem_decimal hmem] at h
  cases h

theorem parseU64_decimal {n : ℕ} (h : n < 2 ^ 64) : InputMovie.parseU64 (decimal n) = some n :=
  InputMovie.parseU64_of_numeral
    ⟨decimal_ne_nil n, fun _ hc => isDigit_of_mem_decimal hc, Nat.ofDigitChars_ten_toDigits⟩ h

theorem parseEventNum_decimal {n : ℕ} (h : n < 2 ^ 64) (label : String) :
    parseEventNum (decimal n) label = .ok n := by
  rw [parseEventNum, parseU64_decimal h, orError]

theorem Kind.token_ne {k : Kind} {c : Char} (h : c.isAlphanum = false) : c ∉ [k.token] := by
  rw [List.mem_singleton]
  rintro rfl
  cases k <;> cases h

/-! ## The inventory -/

/-- A point the bridge can have armed. -/
structure Fine (p : NativePoint) : Prop where
  nativeId : validNativeId p.kind p.nativeId = true
  start : p.start ≤ 0xffff
  stop : p.stop ≤ 0xffff
  publicId : p.publicId < 2 ^ 64

theorem isAlphanum_of_isDigit {c : Char} (h : c.isDigit = true) : c.isAlphanum = true := by
  rw [Char.isAlphanum, h, Bool.or_true]

theorem mem_validNativeId {kind : Kind} {value : List Char} (h : validNativeId kind value = true) {c : Char}
    (hc : c ∈ value) : c.isAlphanum = true ∨ c = '#' := by
  unfold validNativeId at h
  split at h
  · rename_i first suffix
    simp only [Bool.and_eq_true, beq_iff_eq, List.all_eq_true] at h
    obtain ⟨⟨hfirst, -⟩, hsuffix⟩ := h
    simp only [List.mem_cons] at hc
    rcases hc with rfl | rfl | rfl | hmem
    · left
      rw [hfirst]
      split_ifs <;> decide
    · exact .inl (by decide)
    · exact .inr rfl
    · exact .inl (isAlphanum_of_isDigit (hsuffix c hmem))
  · cases h

theorem notMem_validNativeId {kind : Kind} {value : List Char} (h : validNativeId kind value = true) {c : Char}
    (hc : c.isAlphanum = false) (hhash : c ≠ '#') : c ∉ value := by
  intro hmem
  rcases mem_validNativeId h hmem with halnum | rfl
  · rw [hc] at halnum
    cases halnum
  · exact hhash rfl

theorem notMem_inventoryField {p : NativePoint} (h : Fine p) {c : Char} (hc : c.isAlphanum = false)
    (hhash : c ≠ '#') :
    ∀ field ∈ [p.nativeId, [p.kind.token], decimal p.start, decimal p.stop, decimal p.publicId], c ∉ field := by
  have hdigit : c.isDigit = false := by
    rw [Char.isAlphanum, Bool.or_eq_false_iff] at hc
    exact hc.2
  simp only [List.forall_mem_cons]
  exact ⟨notMem_validNativeId h.nativeId hc hhash, Kind.token_ne hc, notMem_decimal hdigit, notMem_decimal hdigit,
    notMem_decimal hdigit, List.forall_mem_nil _⟩

theorem parseInventoryRecord_inventoryRecord {p : NativePoint} (h : Fine p) :
    parseInventoryRecord (inventoryRecord p) = .ok p := by
  have hsplit : (inventoryRecord p).splitOn '|' =
      [p.nativeId, [p.kind.token], decimal p.start, decimal p.stop, decimal p.publicId] :=
    List.splitOn_intercalate '|' (notMem_inventoryField h (by decide) (by decide)) (by simp)
  have hstart := h.start
  have hstop := h.stop
  unfold parseInventoryRecord
  rw [hsplit]
  simp only [Kind.ofToken_token, orError, ok_bind, require, h.nativeId, if_true,
    parseEventNum_decimal (show p.start < 2 ^ 64 by omega), parseEventNum_decimal (show p.stop < 2 ^ 64 by omega),
    parseEventNum_decimal h.publicId]
  rfl

theorem inventoryRecord_line {p : NativePoint} (h : Fine p) :
    '\n' ∉ inventoryRecord p ∧ inventoryRecord p ≠ [] ∧ (inventoryRecord p).getLast? ≠ some '\r' := by
  have hmem : ∀ c : Char, c.isAlphanum = false → c ≠ '#' → c ≠ '|' → c ∉ inventoryRecord p := by
    intro c hc hhash hbar hin
    rcases mem_intercalate hin with rfl | ⟨field, hfield, hin⟩
    · exact hbar rfl
    · exact notMem_inventoryField h hc hhash field hfield hin
  refine ⟨hmem '\n' (by decide) (by decide) (by decide), ?_, fun hlast => ?_⟩
  · intro hnil
    have hbar : '|' ∈ inventoryRecord p := by
      unfold inventoryRecord
      rw [List.intercalate_cons_of_ne_nil (by simp)]
      simp
    rw [hnil] at hbar
    cases hbar
  · exact hmem '\r' (by decide) (by decide) (by decide) (List.mem_of_getLast? hlast)

theorem parseInventoryLines_map {ps : List NativePoint} (hfine : ∀ p ∈ ps, Fine p) (hnodup : ps.Nodup) :
    ∀ points : Finset NativePoint, (∀ p ∈ ps, p ∉ points) →
      parseInventoryLines points (ps.map inventoryRecord) = .ok (points ∪ ps.toFinset) := by
  induction ps with
  | nil =>
    intro points _
    simp [parseInventoryLines]
  | cons p ps ih =>
    intro points hnew
    rw [List.nodup_cons] at hnodup
    simp only [List.map_cons, parseInventoryLines, parseInventoryRecord_inventoryRecord (hfine p List.mem_cons_self),
      ok_bind, require, if_pos (hnew p List.mem_cons_self)]
    rw [ih (fun q hq => hfine q (List.mem_cons_of_mem p hq)) hnodup.2]
    · congr 1
      ext q
      simp only [Finset.mem_union, Finset.mem_insert, List.toFinset_cons]
      tauto
    · intro q hq hin
      rcases Finset.mem_insert.mp hin with rfl | hin
      · exact hnodup.1 hq
      · exact hnew q (List.mem_cons_of_mem p hq) hin

theorem parseInventory_inventoryText {n : Native} (hfine : ∀ p ∈ n.points, Fine p) (hnodup : n.points.Nodup) :
    parseInventory (encodeHexText n.inventoryText) = .ok n.points.toFinset := by
  have hperm : n.inventorySorted.Perm n.points :=
    List.perm_insertionSort _ _
  have hfine' : ∀ p ∈ n.inventorySorted, Fine p :=
    fun p hp => hfine p (hperm.mem_iff.mp hp)
  have hlines : lines n.inventoryText = n.inventorySorted.map inventoryRecord := by
    refine lines_intercalate fun l hl => ?_
    obtain ⟨p, hp, rfl⟩ := List.mem_map.mp hl
    exact inventoryRecord_line (hfine' p hp)
  have hfilter : (lines n.inventoryText).filter (· ≠ []) = lines n.inventoryText := by
    rw [List.filter_eq_self, hlines]
    intro l hl
    obtain ⟨p, hp, rfl⟩ := List.mem_map.mp hl
    simpa using (inventoryRecord_line (hfine' p hp)).2.1
  unfold parseInventory
  simp only [decodeHex_encodeHexText, orError, ok_bind, fromUtf8_utf8, String.toList_ofList]
  rw [hfilter, hlines, parseInventoryLines_map hfine' (hperm.nodup_iff.mpr hnodup) ∅ (by simp),
    Finset.empty_union, List.toFinset_eq_of_perm _ _ hperm]

/-! ## Hits -/

/-- The specifications of a point that the bridge can have installed. -/
structure SmallSpecs (values : List SpecValue) : Prop where
  few : values.length ≤ maxSnapshots
  bytes : (values.map SpecValue.length).sum ≤ maxSnapshotBytes
  range : ∀ v ∈ values, v.address + v.length < 2 ^ 64

/-- What the guest shows on a hit of an installed point: the registers fit, the access is in the range of the point,
and a block that is read has the length that was asked for. -/
structure Captured (p : NativePoint) (c : Capture) : Prop where
  count : c.registers.length = registerNames.length
  registers : ∀ entry ∈ registerNames.zip c.registers, entry.2 ≤ registerMax entry.1
  pc : OrdMap.find? "PC" (registerNames.zip c.registers) = some c.pc
  address : p.start ≤ (if p.kind = .exec then c.pc else c.address) ∧
    (if p.kind = .exec then c.pc else c.address) ≤ p.stop
  value : p.kind = .write → c.value ≤ 0xff
  block : ∀ code address length, (c.readBlock code address length).length = length

def hitEvent (b : Bridge) (bp : PublicBreakpoint) (p : NativePoint) (c : Capture) (seq : ℕ) : Event where
  breakpointId := p.publicId
  nativeId := bp.nativeId
  kind := p.kind
  address := if p.kind = .exec then c.pc else c.address
  pc := c.pc
  hitSeq := seq
  regs := registerNames.zip c.registers
  snapshot := bp.snapshots.map fun s =>
    ⟨s.memoryType, s.address, s.length, c.readBlock s.memoryType.code s.address s.length⟩
  value := if p.kind = .write then some c.value else none
  launchId := b.launchId

def hitFields (values : List SpecValue) (p : NativePoint) (c : Capture) (seq : ℕ) : List (List Char) :=
  [decimal seq, decimal p.publicId, [p.kind.token], decimal c.pc,
    if p.kind = .exec then ['-'] else decimal c.address,
    if p.kind = .write then decimal c.value else ['-'],
    [','].intercalate (c.registers.map decimal),
    [';'].intercalate (values.map (snapshotText c)), []]

/-- The line of a hit whose specifications are `values`. -/
def hitLine (values : List SpecValue) (p : NativePoint) (c : Capture) (seq : ℕ) : List Char :=
  ['|'].intercalate (hitFields values p c seq)

theorem record_eq_hitLine (n : Native) (p : NativePoint) (c : Capture) (seq : ℕ) :
    n.record p c seq = hitLine (n.specsOf p.publicId) p c seq := rfl

theorem Captured.pc_le {p : NativePoint} {c : Capture} (h : Captured p c) : c.pc ≤ 0xffff :=
  h.registers ("PC", c.pc) (OrdMap.mem_of_find? h.pc)

theorem registerMax_le (name : String) : registerMax name ≤ 0xffff := by
  unfold registerMax
  split_ifs <;> omega

theorem MemoryType.code_ne (t : MemoryType) {x : Char} (hx : x.isAlphanum = false) : t.code ≠ x := by
  rintro rfl
  cases t <;> cases hx

theorem notMem_snapshotText {c : Capture} {spec : SpecValue} {x : Char} (hx : x.isAlphanum = false) (hcomma : x ≠ ',')
    (hcode : spec.code ≠ x) : x ∉ snapshotText c spec := by
  have hdigit : x.isDigit = false := by
    rw [Char.isAlphanum, Bool.or_eq_false_iff] at hx
    exact hx.2
  intro hmem
  rcases mem_intercalate hmem with rfl | ⟨field, hfield, hin⟩
  · exact hcomma rfl
  · simp only [List.mem_cons, List.not_mem_nil, or_false] at hfield
    rcases hfield with rfl | rfl | rfl | rfl
    · exact hcode (List.mem_singleton.mp hin).symm
    · exact notMem_decimal hdigit hin
    · exact notMem_decimal hdigit hin
    · rw [isAlphanum_of_mem_encodeHex hin] at hx
      cases hx

theorem parseHitSnapshot_snapshotText {p : NativePoint} {c : Capture} (h : Captured p c) {s : SnapshotSpec}
    (hrange : s.address + s.length < 2 ^ 64) :
    parseHitSnapshot (snapshotText c (specValue s)) s =
      .ok ⟨s.memoryType, s.address, s.length, c.readBlock s.memoryType.code s.address s.length⟩ := by
  have hfields : ∀ field ∈ [[(specValue s).code], decimal (specValue s).address, decimal (specValue s).length,
      encodeHex (c.readBlock (specValue s).code (specValue s).address (specValue s).length)], ',' ∉ field := by
    simp only [List.forall_mem_cons]
    refine ⟨?_, notMem_decimal (by decide), notMem_decimal (by decide), ?_, nofun⟩
    · rw [List.mem_singleton]
      exact (s.memoryType.code_ne (by decide)).symm
    · intro hin
      exact absurd (isAlphanum_of_mem_encodeHex hin) (by decide)
  have hsplit := List.splitOn_intercalate ',' hfields (by simp)
  unfold parseHitSnapshot snapshotText
  rw [hsplit]
  simp only [specValue, require, if_true, ok_bind, parseEventNum_decimal (show s.address < 2 ^ 64 by omega),
    parseEventNum_decimal (show s.length < 2 ^ 64 by omega), decodeHex_encodeHex, orError, h.block]
  rfl

theorem snapshotText_ne_nil (c : Capture) (spec : SpecValue) : snapshotText c spec ≠ [] := by
  simp [snapshotText]

theorem intercalate_ne_nil {sep : Char} {l : List Char} {ls : List (List Char)} (h : l ≠ []) :
    [sep].intercalate (l :: ls) ≠ [] := by
  cases l with
  | nil => exact absurd rfl h
  | cons x l => simp

theorem parseHitSnapshots_snapshotText {p : NativePoint} {c : Capture} (h : Captured p c) {specs : List SnapshotSpec}
    (hrange : ∀ s ∈ specs, s.address + s.length < 2 ^ 64) :
    parseHitSnapshots ([';'].intercalate ((specs.map specValue).map (snapshotText c))) specs =
      .ok (specs.map fun s =>
        ⟨s.memoryType, s.address, s.length, c.readBlock s.memoryType.code s.address s.length⟩) := by
  rw [List.map_map]
  have hsegments : (if [';'].intercalate (specs.map (snapshotText c ∘ specValue)) = [] then []
      else ([';'].intercalate (specs.map (snapshotText c ∘ specValue))).splitOn ';') =
        specs.map (snapshotText c ∘ specValue) := by
    cases specs with
    | nil => rfl
    | cons s specs =>
      rw [if_neg, List.splitOn_intercalate ';' _ (by simp)]
      · intro text htext
        obtain ⟨s', -, rfl⟩ := List.mem_map.mp htext
        exact notMem_snapshotText (by decide) (by decide) (s'.memoryType.code_ne (by decide))
      · exact intercalate_ne_nil (snapshotText_ne_nil c (specValue s))
  unfold parseHitSnapshots
  simp only [hsegments, require, List.length_map, if_true, ok_bind]
  have hzip : (specs.map (snapshotText c ∘ specValue)).zip specs =
      specs.map fun s => (snapshotText c (specValue s), s) := by
    conv_lhs => rw [← List.map_id specs, List.map_map, List.zip_map']
    rfl
  rw [hzip]
  exact mapM_map_eq_ok fun s hs => parseHitSnapshot_snapshotText h (hrange s hs)

theorem parseRegisters {p : NativePoint} {c : Capture} (h : Captured p c) :
    (registerNames.zip (c.registers.map decimal)).mapM (fun entry => parseRegister entry.1 entry.2) =
      .ok (registerNames.zip c.registers) := by
  have hzip : registerNames.zip (c.registers.map decimal) =
      (registerNames.zip c.registers).map fun entry => (entry.1, decimal entry.2) := by
    rw [List.zip_map_right]
    rfl
  have hmap : (registerNames.zip c.registers).map id = registerNames.zip c.registers := List.map_id _
  rw [hzip, ← hmap, List.map_id]
  refine (mapM_map_eq_ok (r := id) fun entry hentry => ?_).trans (by rw [List.map_id])
  have hle := h.registers entry hentry
  have hmax := registerMax_le entry.1
  simp only [parseRegister, parseEventNum_decimal (show entry.2 < 2 ^ 64 by omega), ok_bind, require, if_pos hle]
  rfl

theorem notMem_hitFields {values : List SpecValue} {p : NativePoint} {c : Capture} {seq : ℕ} {x : Char}
    (hx : x.isAlphanum = false) (hsep : x ≠ '-' ∧ x ≠ ',' ∧ x ≠ ';') (hcodes : ∀ v ∈ values, v.code ≠ x) :
    ∀ field ∈ hitFields values p c seq, x ∉ field := by
  have hdigit : x.isDigit = false := by
    rw [Char.isAlphanum, Bool.or_eq_false_iff] at hx
    exact hx.2
  have hdash : x ∉ ['-'] := fun hin => hsep.1 (List.mem_singleton.mp hin)
  simp only [hitFields, List.forall_mem_cons]
  refine ⟨notMem_decimal hdigit, notMem_decimal hdigit, Kind.token_ne hx, notMem_decimal hdigit, ?_, ?_, ?_, ?_,
    by simp, List.forall_mem_nil _⟩
  · split_ifs
    · exact hdash
    · exact notMem_decimal hdigit
  · split_ifs
    · exact notMem_decimal hdigit
    · exact hdash
  · intro hin
    rcases mem_intercalate hin with hcomma | ⟨field, hfield, hin⟩
    · exact hsep.2.1 hcomma
    · obtain ⟨n, -, rfl⟩ := List.mem_map.mp hfield
      exact notMem_decimal hdigit hin
  · intro hin
    rcases mem_intercalate hin with hsemicolon | ⟨field, hfield, hin⟩
    · exact hsep.2.2 hsemicolon
    · obtain ⟨v, hv, rfl⟩ := List.mem_map.mp hfield
      exact notMem_snapshotText hx hsep.2.1 (hcodes v hv) hin

theorem splitOn_hitLine {values : List SpecValue} {p : NativePoint} {c : Capture} {seq : ℕ}
    (hcodes : ∀ v ∈ values, v.code ≠ '|') :
    (hitLine values p c seq).splitOn '|' = hitFields values p c seq :=
  List.splitOn_intercalate '|' (notMem_hitFields (by decide) (by decide) hcodes) (by simp [hitFields])

theorem length_decimal_le {n : ℕ} (h : n < 2 ^ 64) : (decimal n).length ≤ 20 := by
  rw [decimal, Nat.length_toDigits_le_iff (by decide) (by decide)]
  omega

theorem length_intercalate_le (sep : Char) (ls : List (List Char)) :
    ([sep].intercalate ls).length ≤ (ls.map fun l => l.length + 1).sum := by
  induction ls with
  | nil => simp
  | cons l ls ih =>
    rw [List.map_cons, List.sum_cons]
    by_cases hls : ls = []
    · subst hls
      simp
    · rw [List.intercalate_cons_of_ne_nil hls, List.length_append, List.length_append, List.length_singleton]
      omega

theorem length_snapshotText_le {p : NativePoint} {c : Capture} (h : Captured p c) {v : SpecValue}
    (hv : v.address + v.length < 2 ^ 64) : (snapshotText c v).length ≤ 45 + 2 * v.length := by
  have hle := length_intercalate_le ',' [[v.code], decimal v.address, decimal v.length,
    encodeHex (c.readBlock v.code v.address v.length)]
  have haddress := length_decimal_le (show v.address < 2 ^ 64 by omega)
  have hlength := length_decimal_le (show v.length < 2 ^ 64 by omega)
  simp only [List.map_cons, List.map_nil, List.sum_cons, List.sum_nil, List.length_singleton, length_encodeHex,
    h.block] at hle
  unfold snapshotText
  omega

theorem length_snapshots_le {p : NativePoint} {c : Capture} (h : Captured p c) {values : List SpecValue}
    (hrange : ∀ v ∈ values, v.address + v.length < 2 ^ 64) :
    ((values.map (snapshotText c)).map fun l => l.length + 1).sum ≤
      46 * values.length + 2 * (values.map SpecValue.length).sum := by
  induction values with
  | nil => simp
  | cons v values ih =>
    rw [List.forall_mem_cons] at hrange
    have hv := length_snapshotText_le h hrange.1
    have hrest := ih hrange.2
    simp only [List.map_cons, List.sum_cons, List.length_cons]
    omega

theorem length_registers_le {values : List ℕ} (h : ∀ n ∈ values, n < 2 ^ 64) :
    ((values.map decimal).map fun l => l.length + 1).sum ≤ 21 * values.length := by
  induction values with
  | nil => simp
  | cons n values ih =>
    rw [List.forall_mem_cons] at h
    have hn := length_decimal_le h.1
    have hrest := ih h.2
    simp only [List.map_cons, List.sum_cons, List.length_cons]
    omega

theorem Captured.registers_lt {p : NativePoint} {c : Capture} (h : Captured p c) : ∀ n ∈ c.registers, n < 2 ^ 64 := by
  intro n hn
  have hunzip : (registerNames.zip c.registers).map Prod.snd = c.registers := List.map_snd_zip h.count.le
  rw [← hunzip] at hn
  obtain ⟨entry, hentry, rfl⟩ := List.mem_map.mp hn
  have hle := h.registers entry hentry
  have hmax := registerMax_le entry.1
  omega

theorem length_hitLine_le {values : List SpecValue} {p : NativePoint} {c : Capture} {seq : ℕ} (h : Captured p c)
    (hvalues : SmallSpecs values) (hseq : seq < 2 ^ 64) (hid : p.publicId < 2 ^ 64) (hstop : p.stop ≤ 0xffff) :
    (hitLine values p c seq).length + 1 ≤ 1048576 := by
  have hfields := length_intercalate_le '|' (hitFields values p c seq)
  simp only [hitFields, List.map_cons, List.map_nil, List.sum_cons, List.sum_nil, List.length_singleton,
    List.length_nil] at hfields
  have hpc := h.pc_le
  have haddress : (if p.kind = .exec then ['-'] else decimal c.address).length ≤ 20 := by
    have hrange := h.address
    split_ifs with hk
    · decide
    · rw [if_neg hk] at hrange
      exact length_decimal_le (by omega)
  have hvalue : (if p.kind = .write then decimal c.value else ['-']).length ≤ 20 := by
    split_ifs with hk
    · have hle := h.value hk
      exact length_decimal_le (by omega)
    · decide
  have hregisters := (length_intercalate_le ',' (c.registers.map decimal)).trans (length_registers_le h.registers_lt)
  have hsnapshots := (length_intercalate_le ';' (values.map (snapshotText c))).trans
    (length_snapshots_le h hvalues.range)
  have hcount : c.registers.length = 16 := h.count
  have hfew : values.length ≤ 16 := hvalues.few
  have hbytes : (values.map SpecValue.length).sum ≤ 16384 := hvalues.bytes
  have hseq' := length_decimal_le hseq
  have hid' := length_decimal_le hid
  have hpc' := length_decimal_le (show c.pc < 2 ^ 64 by omega)
  unfold hitLine hitFields
  omega

theorem hitLine_ne_nil (values : List SpecValue) (p : NativePoint) (c : Capture) (seq : ℕ) :
    hitLine values p c seq ≠ [] := intercalate_ne_nil (decimal_ne_nil seq)

theorem newline_notMem_hitLine {values : List SpecValue} (hcodes : ∀ v ∈ values, v.code ≠ '\n') (p : NativePoint)
    (c : Capture) (seq : ℕ) : '\n' ∉ hitLine values p c seq := by
  intro hin
  rcases mem_intercalate hin with hbar | ⟨field, hfield, hin⟩
  · exact absurd hbar (by decide)
  · exact notMem_hitFields (by decide) (by decide) hcodes field hfield hin

theorem parseHitRecord_hitLine {b : Bridge} {bp : PublicBreakpoint} {p : NativePoint} {c : Capture} {seq : ℕ}
    (h : Captured p c) (hseq : b.lastHitSeq < seq) (hbound : seq < 2 ^ 64) (hid : p.publicId < 2 ^ 64)
    (hstop : p.stop ≤ 0xffff) (hbp : OrdMap.find? p.publicId b.breakpoints = some bp)
    (hpoint : nativePoint p.publicId bp = p) (hrange : ∀ s ∈ bp.snapshots, s.address + s.length < 2 ^ 64) :
    parseHitRecord b (hitLine (bp.snapshots.map specValue) p c seq) = .ok (hitEvent b bp p c seq) := by
  have hkind : bp.kind = p.kind := congrArg NativePoint.kind hpoint
  have hlow : bp.start = p.start := congrArg NativePoint.start hpoint
  have hhigh : bp.stop = p.stop := congrArg NativePoint.stop hpoint
  have hpc := h.pc_le
  have haddress := h.address
  have hregisters : ([','].intercalate (c.registers.map decimal)).splitOn ',' = c.registers.map decimal := by
    refine List.splitOn_intercalate ',' ?_ ?_
    · intro field hfield
      obtain ⟨n, -, rfl⟩ := List.mem_map.mp hfield
      exact notMem_decimal (by decide)
    · intro hnil
      have hcount := h.count
      rw [List.map_eq_nil_iff.mp hnil] at hcount
      cases hcount
  have hcodes : ∀ v ∈ bp.snapshots.map specValue, v.code ≠ '|' := by
    intro v hv
    obtain ⟨s, -, rfl⟩ := List.mem_map.mp hv
    exact s.memoryType.code_ne (by decide)
  unfold parseHitRecord
  rw [splitOn_hitLine hcodes]
  simp only [hitFields, ne_eq, not_true_eq_false, if_false, parseEventNum_decimal hbound, ok_bind, require, if_pos hseq,
    parseEventNum_decimal hid, hbp, orError, Kind.ofToken_token, hkind, if_true,
    parseEventNum_decimal (show c.pc < 2 ^ 64 by omega), hregisters, List.length_map, h.count, parseRegisters h, h.pc,
    parseHitSnapshots_snapshotText h hrange, hlow, hhigh]
  cases hk : p.kind with
  | exec =>
    simp only [hk, if_true] at haddress
    simp only [reduceCtorEq, if_true, if_false, and_self, ok_bind, pure_bind, if_pos haddress, false_and,
      not_false_eq_true, hitEvent, hk]
    rfl
  | read =>
    simp only [hk, reduceCtorEq, if_false] at haddress
    simp only [reduceCtorEq, if_true, if_false, ok_bind, pure_bind, if_pos haddress, not_true_eq_false, and_false,
      not_false_eq_true, parseEventNum_decimal (show c.address < 2 ^ 64 by omega), hitEvent, hk]
    rfl
  | write =>
    have hvalue := h.value hk
    simp only [hk, reduceCtorEq, if_false] at haddress
    simp only [reduceCtorEq, if_true, if_false, ok_bind, pure_bind, if_pos haddress, if_pos hvalue,
      parseEventNum_decimal (show c.address < 2 ^ 64 by omega), parseEventNum_decimal (show c.value < 2 ^ 64 by omega),
      hitEvent, hk]
    rfl

end Emucap.OpenmsxBridge
