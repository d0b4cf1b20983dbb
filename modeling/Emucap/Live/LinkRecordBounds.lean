import Emucap.Live.ContinuityRuns
import Emucap.Lib.JsonText
import Mathlib.Algebra.Order.BigOperators.Group.List
import Mathlib.Algebra.GroupWithZero.Nat

/-!
# The bound of a link record

`LinkRecord.bounded`, with the record as `serde_json` writes it. A cut inside a character panics, and `last_method` is
not cut at all. `Sound` leaves these out and is exactly what the bound needs (`bounds_iff_sound`).
-/

namespace Emucap.Live

open Emucap.Lib

/-! ## Lengths of texts -/

def utf8Length (text : List Char) : ℕ := (text.map Char.utf8Size).sum

theorem utf8Length_append (a b : List Char) : utf8Length (a ++ b) = utf8Length a + utf8Length b := by
  rw [utf8Length, List.map_append, List.sum_append]
  rfl

theorem utf8Length_cons (c : Char) (text : List Char) : utf8Length (c :: text) = c.utf8Size + utf8Length text := by
  rw [utf8Length, List.map_cons, List.sum_cons]
  rfl

theorem length_le_utf8Length (text : List Char) : text.length ≤ utf8Length text := by
  induction text with
  | nil => exact Nat.le_refl _
  | cons c text ih =>
    have hpos := c.utf8Size_pos
    rw [utf8Length_cons, List.length_cons]
    omega

theorem utf8Length_intercalate (items : List (List Char)) :
    utf8Length ([','].intercalate items) = (items.map fun item => 1 + utf8Length item).sum - 1 := by
  have hcomma : utf8Length [','] = 1 := by decide
  have hcons : ∀ (rest : List (List Char)) (item : List Char), utf8Length ([','].intercalate (item :: rest)) + 1 =
      ((item :: rest).map fun item => 1 + utf8Length item).sum := by
    intro rest
    induction rest with
    | nil =>
      intro item
      rw [List.intercalate_singleton, List.map_singleton, List.sum_singleton]
      omega
    | cons next rest ih =>
      intro item
      have hnext := ih next
      rw [List.intercalate_cons_cons, utf8Length_append, utf8Length_append, hcomma, List.map_cons, List.sum_cons]
      omega
  rcases items with - | ⟨item, rest⟩
  · rfl
  · have h := hcons rest item
    omega

section Compact

variable (floatText : UInt64 → List Char)

theorem compactFields_eq_map (fields : List (String × Json)) :
    Json.compactFields floatText fields = fields.map fun field => (field.1, Json.compact floatText field.2) := by
  induction fields with
  | nil => rw [Json.compactFields, List.map_nil]
  | cons field fields ih =>
    obtain ⟨key, value⟩ := field
    rw [Json.compactFields, ih, List.map_cons]

theorem compact_sublist_le {fields fields' : List (String × Json)} (h : fields.Sublist fields') :
    utf8Length (Json.compact floatText (.obj fields)) ≤ utf8Length (Json.compact floatText (.obj fields')) := by
  have hsum : ∀ l : List (String × Json), utf8Length (Json.compact floatText (.obj l)) =
      ((l.map fun field => 1 + utf8Length (Json.quote field.1 ++ ':' :: Json.compact floatText field.2)).sum - 1) + 2 := by
    intro l
    have hbraces : utf8Length ['}'] = 1 := by decide
    have hbrace : Char.utf8Size '{' = 1 := by decide
    rw [Json.compact, Json.joinFields, compactFields_eq_map, List.cons_append, utf8Length_cons, utf8Length_append,
      utf8Length_intercalate, List.map_map, List.map_map, hbraces, hbrace]
    simp only [Function.comp_def]
    omega
  have hle := (h.map fun field => 1 + utf8Length (Json.quote field.1 ++ ':' :: Json.compact floatText field.2)).sum_le_sum
    fun _ _ => Nat.zero_le _
  rw [hsum, hsum]
  omega

theorem length_le_compact {fields : List (String × Json)} {key text : String} (h : (key, Json.str text) ∈ fields) :
    text.toList.length ≤ utf8Length (Json.compact floatText (.obj fields)) := by
  have hfield := compact_sublist_le floatText (List.singleton_sublist.mpr h)
  refine Nat.le_trans ?_ hfield
  have htext : text.toList.length ≤ utf8Length (Json.compact floatText (.str text)) := by
    simp only [Json.compact, Json.scalar]
    exact (Json.length_le_quote text).trans (length_le_utf8Length _)
  rw [Json.compact, Json.joinFields, compactFields_eq_map]
  simp only [List.map_cons, List.map_nil, List.intercalate_singleton, List.cons_append, utf8Length_cons,
    utf8Length_append]
  omega

end Compact

/-! ## The text of a record -/

def optionField (key : String) (value : Option Json) : List (String × Json) := (value.map fun v => (key, v)).toList

def ProcessIdentity.toJson (p : ProcessIdentity) : Json :=
  .obj ([("pid", .nat p.pid)] ++ optionField "start_identity" (p.startIdentity.map .str))

def OperationKey.toJson (k : OperationKey) : Json :=
  .obj [("runtime", .str k.runtime), ("owner_id", .str k.ownerId), ("operation_id", .str k.operationId)]

def TemporalOperation.toJson (o : TemporalOperation) : Json :=
  .obj [("key", o.key.toJson), ("holder", o.holder.toJson),
    ("control_session_key", (o.controlSessionKey.map .str).getD .null),
    ("state", .str (match o.state with | .active => "active" | .unverified => "unverified"))]

def LeaseRecord.toJson (l : LeaseRecord) : Json :=
  .obj (optionField "control_session_key" (l.controlSessionKey.map .str) ++
    [("holder", l.holder.toJson), ("acquired_at_unix_ms", .nat l.acquiredAtUnixMs),
      ("refreshed_at_unix_ms", .nat l.refreshedAtUnixMs)])

def EmulatorIdentity.toJson (i : EmulatorIdentity) : Json :=
  .obj (optionField "system" (i.system.map .str) ++ optionField "adapter" (i.adapter.map .str) ++
    optionField "build" (i.build.map .str) ++ optionField "name" (i.name.map .str) ++
    optionField "session_token" (i.sessionToken.map .str) ++ optionField "content" (i.content.map .str) ++
    optionField "launch_id" (i.launchId.map .str) ++
    (if i.hostFeatures = [] then [] else [("host_features", .arr (i.hostFeatures.map .str))]) ++
    optionField "mesen_host_api" (i.mesenHostApi.map .nat) ++ optionField "host_build" i.hostBuild)

def TransportState.toJson (t : TransportState) : Json :=
  .str (match t with | .connected => "connected" | .stalled => "stalled" | .disconnected => "disconnected")

def FailureObservation.toJson (f : FailureObservation) : Json :=
  .obj ([("active", .bool f.active), ("kind", .str f.kind), ("operation", .str f.operation),
    ("observed_at_unix_ms", .nat f.observedAtUnixMs)] ++
    optionField "recovered_at_unix_ms" (f.recoveredAtUnixMs.map .nat))

namespace LinkRecord

/-- The fields that are written, in their order. -/
def fields (r : LinkRecord) : List (String × Json) :=
  [("schema_version", .nat r.schemaVersion), ("launch_id", .str r.launchId)] ++
    optionField "temporal_operation" (r.temporalOperation.map TemporalOperation.toJson) ++
    optionField "lease" (r.lease.map LeaseRecord.toJson) ++
    optionField "last_identity" (r.lastIdentity.map EmulatorIdentity.toJson) ++
    optionField "last_response_unix_ms" (r.lastResponseUnixMs.map .nat) ++
    optionField "last_method" (r.lastMethod.map .str) ++ optionField "last_status" r.lastStatus ++
    [("transport_state", r.transportState.toJson), ("consecutive_timeouts", .nat r.consecutiveTimeouts)] ++
    optionField "last_failure" (r.lastFailure.map FailureObservation.toJson) ++
    (if r.truncated then [("truncated", .bool true)] else []) ++ [("updated_at_unix_ms", .nat r.updatedAtUnixMs)]

/-- The bytes of a record. `floatText` is how a floating-point number is written. -/
def encodedBytes (floatText : UInt64 → List Char) (r : LinkRecord) : Option ℕ :=
  some (utf8Length (Json.compact floatText (.obj r.fields)))

def alone (r : LinkRecord) : LinkRecord :=
  { new r.launchId 0 with temporalOperation := r.temporalOperation, lease := r.lease }

def withoutToken (r : LinkRecord) : LinkRecord :=
  { r with lastIdentity := r.lastIdentity.map EmulatorIdentity.withoutToken }

structure Meets (bytes : LinkRecord → Option ℕ) (r r' : LinkRecord) : Prop where
  size : r.alone.fits bytes = true → r'.fits bytes = true
  keeps : r.Keeps r'
  transportState : r'.transportState = r.transportState
  consecutiveTimeouts : r'.consecutiveTimeouts = r.consecutiveTimeouts
  token : ∀ identity ∈ r'.lastIdentity, identity.sessionToken = none
  marked : r'.truncated = false → r' = r.withoutToken

/-- It does not panic, and the result is what it is to be. -/
def Bounds (bytes : LinkRecord → Option ℕ) (r : LinkRecord) : Prop :=
  ∃ r', r.bounded bytes = some r' ∧ r.Meets bytes r'

end LinkRecord

/-! ## Cuts -/

/-- The characters within the first `n` bytes. -/
def takeBytes : ℕ → List Char → List Char
  | _, [] => []
  | n, c :: rest => if c.utf8Size ≤ n then c :: takeBytes (n - c.utf8Size) rest else []

/-- The text ends within `n` bytes, or it can be cut there: between two characters. -/
def Cuts (n : ℕ) (text : String) : Prop :=
  utf8Length text.toList ≤ n ∨ ∃ before after, text.toList = before ++ after ∧ utf8Length before = n

def cutText (n : ℕ) (text : String) : String := String.ofList (takeBytes n text.toList)

theorem truncateChars_eq_some_iff {cs : List Char} : ∀ {n : ℕ} {out : List Char},
    truncateChars n cs = some out ↔
      out = takeBytes n cs ∧ (utf8Length cs ≤ n ∨ ∃ before after, cs = before ++ after ∧ utf8Length before = n) := by
  induction cs with
  | nil =>
    intro n out
    simp [truncateChars, takeBytes, utf8Length, eq_comm]
  | cons c rest ih =>
    intro n out
    have hpos := c.utf8Size_pos
    rw [truncateChars, takeBytes]
    by_cases hzero : n = 0
    · have hcut : ∃ before after, c :: rest = before ++ after ∧ utf8Length before = n :=
        ⟨[], c :: rest, rfl, hzero.symm⟩
      rw [if_pos hzero, if_neg (by omega), Option.some_inj]
      exact ⟨fun h => ⟨h.symm, .inr hcut⟩, fun h => h.1.symm⟩
    rw [if_neg hzero]
    by_cases hfits : c.utf8Size ≤ n
    · rw [if_pos hfits, if_pos hfits, Option.map_eq_some_iff]
      have hcuts : (utf8Length (c :: rest) ≤ n ∨ ∃ before after, c :: rest = before ++ after ∧ utf8Length before = n) ↔
          utf8Length rest ≤ n - c.utf8Size ∨
            ∃ before after, rest = before ++ after ∧ utf8Length before = n - c.utf8Size := by
        simp only [utf8Length, List.map_cons, List.sum_cons]
        refine or_congr (by omega) ⟨?_, ?_⟩
        · rintro ⟨before, after, heq, hlength⟩
          rcases before with - | ⟨d, before⟩
          · exact absurd hlength.symm hzero
          · obtain ⟨rfl, rfl⟩ := List.cons.inj heq
            rw [List.map_cons, List.sum_cons] at hlength
            exact ⟨before, after, rfl, by omega⟩
        · rintro ⟨before, after, rfl, hlength⟩
          refine ⟨c :: before, after, rfl, ?_⟩
          rw [List.map_cons, List.sum_cons]
          omega
      rw [hcuts]
      constructor
      · rintro ⟨out, hout, rfl⟩
        obtain ⟨rfl, h⟩ := ih.mp hout
        exact ⟨rfl, h⟩
      · rintro ⟨rfl, h⟩
        exact ⟨_, ih.mpr ⟨rfl, h⟩, rfl⟩
    · rw [if_neg hfits, if_neg hfits]
      refine iff_of_false (by simp) ?_
      rintro ⟨-, hlength | ⟨before, after, heq, hlength⟩⟩
      · rw [utf8Length, List.map_cons, List.sum_cons] at hlength
        omega
      · rcases before with - | ⟨d, before⟩
        · exact hzero hlength.symm
        · obtain ⟨rfl, -⟩ := List.cons.inj heq
          rw [utf8Length, List.map_cons, List.sum_cons] at hlength
          omega

theorem truncateText_eq_some_iff {n : ℕ} {text out : String} :
    truncateText n text = some out ↔ out = cutText n text ∧ Cuts n text := by
  rw [truncateText, Option.map_eq_some_iff]
  constructor
  · rintro ⟨cs, hcs, rfl⟩
    obtain ⟨rfl, h⟩ := (truncateChars_eq_some_iff).mp hcs
    exact ⟨rfl, h⟩
  · rintro ⟨rfl, h⟩
    exact ⟨_, (truncateChars_eq_some_iff).mpr ⟨rfl, h⟩, rfl⟩

theorem truncateField_eq_some_iff {n : ℕ} {text out : Option String} :
    truncateField n text = some out ↔ out = text.map (cutText n) ∧ ∀ s ∈ text, Cuts n s := by
  rcases text with - | s
  · simp [truncateField, shorten, eq_comm]
  · simp only [truncateField, shorten, Option.map_eq_some_iff, truncateText_eq_some_iff, Option.map_some,
      Option.mem_def, Option.some_inj, forall_eq']
    constructor
    · rintro ⟨t, ⟨rfl, h⟩, rfl⟩
      exact ⟨rfl, h⟩
    · rintro ⟨rfl, h⟩
      exact ⟨_, ⟨rfl, h⟩, rfl⟩

namespace EmulatorIdentity

def texts (i : EmulatorIdentity) : List (Option String) := [i.system, i.adapter, i.build, i.name, i.content, i.launchId]

def cut (i : EmulatorIdentity) : EmulatorIdentity :=
  { i with
    system := i.system.map (cutText 1024)
    adapter := i.adapter.map (cutText 1024)
    build := i.build.map (cutText 1024)
    name := i.name.map (cutText 1024)
    content := i.content.map (cutText 1024)
    launchId := i.launchId.map (cutText 1024) }

theorem truncate_eq_some_iff {i out : EmulatorIdentity} :
    i.truncate = some out ↔ out = i.cut ∧ ∀ text ∈ i.texts, ∀ s ∈ text, Cuts 1024 s := by
  simp only [truncate, Option.bind_eq_bind, Option.bind_eq_some_iff, truncateField_eq_some_iff, texts,
    List.forall_mem_cons]
  constructor
  · rintro ⟨system, ⟨rfl, hsystem⟩, adapter, ⟨rfl, hadapter⟩, build, ⟨rfl, hbuild⟩, name, ⟨rfl, hname⟩, content,
      ⟨rfl, hcontent⟩, launchId, ⟨rfl, hlaunchId⟩, h⟩
    exact ⟨(Option.some.inj h).symm, hsystem, hadapter, hbuild, hname, hcontent, hlaunchId, by simp⟩
  · rintro ⟨rfl, hsystem, hadapter, hbuild, hname, hcontent, hlaunchId, -⟩
    exact ⟨_, ⟨rfl, hsystem⟩, _, ⟨rfl, hadapter⟩, _, ⟨rfl, hbuild⟩, _, ⟨rfl, hname⟩, _, ⟨rfl, hcontent⟩, _,
      ⟨rfl, hlaunchId⟩, rfl⟩

end EmulatorIdentity

namespace FailureObservation

def cut (f : FailureObservation) : FailureObservation :=
  { f with kind := cutText 128 f.kind, operation := cutText 128 f.operation }

theorem truncate_eq_some_iff {f out : FailureObservation} :
    f.truncate = some out ↔ out = f.cut ∧ Cuts 128 f.kind ∧ Cuts 128 f.operation := by
  simp only [truncate, Option.bind_eq_bind, Option.bind_eq_some_iff, truncateText_eq_some_iff]
  constructor
  · rintro ⟨kind, ⟨rfl, hkind⟩, operation, ⟨rfl, hoperation⟩, h⟩
    exact ⟨(Option.some.inj h).symm, hkind, hoperation⟩
  · rintro ⟨rfl, hkind, hoperation⟩
    exact ⟨_, ⟨rfl, hkind⟩, _, ⟨rfl, hoperation⟩, rfl⟩

end FailureObservation

theorem shorten_eq_some_iff {α : Type} {truncate : α → Option α} {cut : α → α} {good : α → Prop}
    (h : ∀ a out, truncate a = some out ↔ out = cut a ∧ good a) {a out : Option α} :
    shorten truncate a = some out ↔ out = a.map cut ∧ ∀ x ∈ a, good x := by
  rcases a with - | a
  · simp [shorten, eq_comm]
  · simp only [shorten, Option.map_eq_some_iff, h, Option.map_some, Option.mem_def, Option.some_inj, forall_eq']
    constructor
    · rintro ⟨b, ⟨rfl, hgood⟩, rfl⟩
      exact ⟨rfl, hgood⟩
    · rintro ⟨rfl, hgood⟩
      exact ⟨_, ⟨rfl, hgood⟩, rfl⟩

/-! ## The bound -/

namespace LinkRecord

/-- Every text that would be cut can be cut. -/
structure CutsWell (r : LinkRecord) : Prop where
  identity : ∀ identity ∈ r.lastIdentity, ∀ text ∈ identity.texts, ∀ s ∈ text, Cuts 1024 s
  failure : ∀ failure ∈ r.lastFailure, Cuts 128 failure.kind ∧ Cuts 128 failure.operation

def cut (r : LinkRecord) : LinkRecord :=
  { r.withoutToken with
    truncated := true
    lastStatus := some truncatedStatus
    lastIdentity := r.withoutToken.lastIdentity.map EmulatorIdentity.cut
    lastFailure := r.lastFailure.map FailureObservation.cut }

/-- What is left of a record at the least: the method as it is, the failure with its texts cut, a mark for the
status, and no identity. -/
def least (r : LinkRecord) : LinkRecord := { r.cut with lastIdentity := none }

/-- The record need not be cut, or it can be cut and is then small enough. -/
def Sound (bytes : LinkRecord → Option ℕ) (r : LinkRecord) : Prop :=
  r.withoutToken.fits bytes = true ∨
    r.CutsWell ∧ (r.alone.fits bytes = true → r.least.fits bytes = true)

variable {bytes : LinkRecord → Option ℕ} {r r' : LinkRecord}

theorem texts_withoutToken (i : EmulatorIdentity) : i.withoutToken.texts = i.texts := rfl

theorem bounded_eq_some_iff : r.bounded bytes = some r' ↔
    r.withoutToken.fits bytes = true ∧ r' = r.withoutToken ∨
      r.withoutToken.fits bytes = false ∧ r.CutsWell ∧ r' = if r.cut.fits bytes then r.cut else r.least := by
  have hidentity : ∀ out, shorten EmulatorIdentity.truncate r.withoutToken.lastIdentity = some out ↔
      out = r.cut.lastIdentity ∧ ∀ identity ∈ r.lastIdentity, ∀ text ∈ identity.texts, ∀ s ∈ text, Cuts 1024 s := by
    intro out
    rw [shorten_eq_some_iff fun _ _ => EmulatorIdentity.truncate_eq_some_iff]
    refine and_congr_right fun _ => ?_
    simp only [withoutToken, Option.mem_def, Option.map_eq_some_iff, forall_exists_index, and_imp,
      forall_apply_eq_imp_iff₂, texts_withoutToken]
  have hfailure : ∀ out, shorten FailureObservation.truncate r.lastFailure = some out ↔
      out = r.cut.lastFailure ∧ ∀ failure ∈ r.lastFailure, Cuts 128 failure.kind ∧ Cuts 128 failure.operation :=
    fun out => shorten_eq_some_iff fun _ _ => FailureObservation.truncate_eq_some_iff
  have hunfold : r.bounded bytes = if r.withoutToken.fits bytes = true then some r.withoutToken else
      (shorten EmulatorIdentity.truncate r.withoutToken.lastIdentity).bind fun lastIdentity =>
        (shorten FailureObservation.truncate r.lastFailure).bind fun lastFailure =>
          let record := { r.withoutToken with truncated := true, lastStatus := some truncatedStatus, lastIdentity, lastFailure }
          if record.fits bytes = true then some record else some { record with lastIdentity := none } := rfl
  rw [hunfold]
  by_cases hfits : r.withoutToken.fits bytes = true
  · rw [if_pos hfits, Option.some_inj]
    constructor
    · exact fun h => .inl ⟨hfits, h.symm⟩
    · rintro (⟨-, h⟩ | ⟨hnot, -⟩)
      · exact h.symm
      · exact absurd (hfits.symm.trans hnot) (by simp)
  · rw [if_neg hfits, Option.bind_eq_some_iff]
    constructor
    · rintro ⟨lastIdentity, hlastIdentity, h⟩
      obtain ⟨lastFailure, hlastFailure, h⟩ := Option.bind_eq_some_iff.mp h
      obtain ⟨rfl, hgoodIdentity⟩ := (hidentity _).mp hlastIdentity
      obtain ⟨rfl, hgoodFailure⟩ := (hfailure _).mp hlastFailure
      refine .inr ⟨Bool.eq_false_iff.mpr hfits, ⟨hgoodIdentity, hgoodFailure⟩, ?_⟩
      change (if r.cut.fits bytes = true then some r.cut else some r.least) = some r' at h
      rw [← apply_ite some, Option.some_inj] at h
      exact h.symm
    · rintro (⟨h, -⟩ | ⟨-, hcuts, h⟩)
      · exact absurd h hfits
      · refine ⟨_, (hidentity _).mpr ⟨rfl, hcuts.identity⟩, ?_⟩
        rw [(hfailure _).mpr ⟨rfl, hcuts.failure⟩, Option.bind_some]
        change (if r.cut.fits bytes = true then some r.cut else some r.least) = some r'
        rw [← apply_ite some, h]

theorem least_fits {floatText : UInt64 → List Char} (h : r.cut.fits (encodedBytes floatText) = true) :
    r.least.fits (encodedBytes floatText) = true := by
  have hfields : r.least.fields.Sublist r.cut.fields := by
    unfold fields
    repeat' refine List.Sublist.append ?_ ?_
    all_goals first
      | exact List.Sublist.refl _
      | exact List.nil_sublist _
  have hle := compact_sublist_le floatText hfields
  simp only [fits, encodedBytes, decide_eq_true_eq] at h ⊢
  omega

theorem cut_keeps : r.Keeps r.cut := ⟨rfl, rfl, rfl⟩

theorem least_keeps : r.Keeps r.least := ⟨rfl, rfl, rfl⟩

theorem token_withoutToken : ∀ identity ∈ r.withoutToken.lastIdentity, identity.sessionToken = none := by
  intro identity hidentity
  obtain ⟨original, -, rfl⟩ := Option.map_eq_some_iff.mp hidentity
  rfl

theorem token_cut : ∀ identity ∈ r.cut.lastIdentity, identity.sessionToken = none := by
  intro identity hidentity
  obtain ⟨original, horiginal, rfl⟩ := Option.map_eq_some_iff.mp hidentity
  exact token_withoutToken original horiginal

theorem bounded_meets (h : r.bounded bytes = some r') (hsize : r.alone.fits bytes = true → r'.fits bytes = true) :
    r.Meets bytes r' := by
  rcases (bounded_eq_some_iff).mp h with ⟨-, rfl⟩ | ⟨-, -, rfl⟩
  · exact ⟨hsize, ⟨rfl, rfl, rfl⟩, rfl, rfl, token_withoutToken, fun _ => rfl⟩
  · have hmarked : r.cut.truncated = true ∧ r.least.truncated = true := ⟨rfl, rfl⟩
    split_ifs at hsize ⊢ with hcut
    · exact ⟨hsize, cut_keeps, rfl, rfl, token_cut, fun h => absurd (hmarked.1.symm.trans h) (by decide)⟩
    · have hidentity : r.least.lastIdentity = none := rfl
      refine ⟨hsize, least_keeps, rfl, rfl, fun identity h => ?_, fun h => absurd (hmarked.2.symm.trans h) (by decide)⟩
      rw [hidentity] at h
      cases h

theorem bounded_fits (hcutLeast : r.cut.fits bytes = true → r.least.fits bytes = true) (h : r.bounded bytes = some r') :
    r'.fits bytes = true ↔ r.withoutToken.fits bytes = true ∨ r.least.fits bytes = true := by
  rcases (bounded_eq_some_iff).mp h with ⟨hfits, rfl⟩ | ⟨hfits, -, rfl⟩
  · exact iff_of_true hfits (.inl hfits)
  · rw [hfits]
    split_ifs with hcut
    · exact iff_of_true hcut (.inr (hcutLeast hcut))
    · simp

theorem bounds_iff_sound (hcutLeast : r.cut.fits bytes = true → r.least.fits bytes = true) :
    r.Bounds bytes ↔ r.Sound bytes := by
  constructor
  · rintro ⟨r', hrun, hmeets⟩
    have hsize := hmeets.size
    rw [bounded_fits hcutLeast hrun] at hsize
    rcases (bounded_eq_some_iff).mp hrun with ⟨hfits, -⟩ | ⟨hfits, hcuts, -⟩
    · exact .inl hfits
    · refine .inr ⟨hcuts, fun halone => (hsize halone).resolve_left ?_⟩
      rw [hfits]
      exact Bool.false_ne_true
  · intro hsound
    rcases Bool.eq_false_or_eq_true (r.withoutToken.fits bytes) with hfits | hfits
    · have hrun := (bounded_eq_some_iff).mpr (.inl ⟨hfits, rfl⟩)
      exact ⟨_, hrun, bounded_meets hrun fun _ => hfits⟩
    · obtain ⟨hcuts, hleast⟩ := hsound.resolve_left (by rw [hfits]; exact Bool.false_ne_true)
      have hrun := (bounded_eq_some_iff).mpr (.inr ⟨hfits, hcuts, rfl⟩)
      exact ⟨_, hrun, bounded_meets hrun fun halone => (bounded_fits hcutLeast hrun).mpr (.inr (hleast halone))⟩

end LinkRecord

/-! ## Recording an observation -/

section Persists

open LinkRecord

variable (floatText : UInt64 → List Char)

/-- The update of the record of a launch, with the file system at work: the record is written with the launch, the
lease and the quarantine marker that it had. -/
def Persists (launchId : String) (observation : ℕ → LinkRecord → LinkRecord) (env : LinkEnv)
    (cell : Option LinkRecord) : Prop :=
  ∃ r', updateJson (encodedBytes floatText) ⟨.ok (), .ok (), .stored⟩
      (ObservedLink.observeUpdate (encodedBytes floatText) launchId observation env) cell = (some (.ok r'), some r') ∧
    (launchRecord launchId env.now cell).Keeps r'

/-- A record is written exactly if the update gives it and it fits. -/
theorem updateJson_stored_iff {bytes : LinkRecord → Option ℕ} {update : Option LinkRecord → Option (Except IoError LinkRecord)}
    {cell : Option LinkRecord} {r' : LinkRecord} :
    updateJson bytes ⟨.ok (), .ok (), .stored⟩ update cell = (some (.ok r'), some r') ↔
      update cell = some (.ok r') ∧ r'.fits bytes = true := by
  have hwrite : ∀ next : LinkRecord, next.fits bytes = true ↔
      writeAtomicJson bytes .stored next cell = (.ok (), some next) := by
    intro next
    rcases hbytes : bytes next with - | size
    · simp [fits, writeAtomicJson, hbytes]
    · by_cases hsize : maxCapsuleFileBytes < size
      · simp [fits, writeAtomicJson, hbytes, hsize]
      · simp [fits, writeAtomicJson, hbytes, hsize, not_lt.mp hsize]
  unfold updateJson
  rcases hupdate : update cell with - | (e | next)
  · simp
  · simp
  · by_cases hfits : next.fits bytes = true
    · have hstored := (hwrite next).mp hfits
      simp only [hstored, Prod.mk.injEq, Option.some_inj, Except.ok.injEq, and_self]
      exact ⟨fun h => ⟨h, h ▸ hfits⟩, fun h => h.1⟩
    · refine iff_of_false (fun h => ?_) (fun h => hfits (Except.ok.inj (Option.some.inj h.1) ▸ h.2))
      dsimp only at h
      rcases hrun : writeAtomicJson bytes .stored next cell with ⟨(e | u), cell'⟩
      · rw [hrun] at h
        simp at h
      · rcases writeAtomicJson_cases bytes .stored next cell with ⟨e, heq⟩ | ⟨-, heq⟩ | ⟨e, heq, -⟩
        · rw [hrun] at heq
          cases heq
        · exact hfits ((hwrite next).mpr heq)
        · cases heq

theorem persists_iff {launchId : String} {observation : ℕ → LinkRecord → LinkRecord}
    (hkeeps : ObservationKeeps observation) {env : LinkEnv} {cell : Option LinkRecord}
    (halone : (launchRecord launchId env.now cell).alone.fits (encodedBytes floatText) = true) :
    Persists floatText launchId observation env cell ↔
      (observation env.now (launchRecord launchId env.now cell)).Sound (encodedBytes floatText) := by
  have hseen := hkeeps env.now (launchRecord launchId env.now cell)
  have halone' : (observation env.now (launchRecord launchId env.now cell)).alone.fits (encodedBytes floatText) =
      true := by
    rw [alone, hseen.launchId, hseen.temporalOperation, hseen.lease]
    exact halone
  rw [← bounds_iff_sound least_fits]
  have hupdate : ∀ r', ObservedLink.observeUpdate (encodedBytes floatText) launchId observation env cell =
      some (.ok r') ↔ (observation env.now (launchRecord launchId env.now cell)).bounded (encodedBytes floatText) =
        some r' := by
    intro r'
    rw [ObservedLink.observeUpdate, Option.map_eq_some_iff]
    exact ⟨fun ⟨_, h, heq⟩ => Except.ok.inj heq ▸ h, fun h => ⟨r', h, rfl⟩⟩
  constructor
  · rintro ⟨r', hstored, -⟩
    obtain ⟨hrun, hfits⟩ := (updateJson_stored_iff).mp hstored
    exact ⟨r', (hupdate r').mp hrun, bounded_meets ((hupdate r').mp hrun) fun _ => hfits⟩
  · rintro ⟨r', hrun, hmeets⟩
    refine ⟨r', (updateJson_stored_iff).mpr ⟨(hupdate r').mpr hrun, hmeets.size halone'⟩, ?_⟩
    exact ⟨hmeets.keeps.launchId.trans hseen.launchId,
      hmeets.keeps.temporalOperation.trans hseen.temporalOperation, hmeets.keeps.lease.trans hseen.lease⟩

/-- A record is bounded as it is to be exactly if it is `Sound`, and `record_success` and `record_failure` write the
lease and the quarantine marker exactly if the record with their observation is. -/
theorem link_record_bounds : (∀ r : LinkRecord, r.Bounds (encodedBytes floatText) ↔ r.Sound (encodedBytes floatText)) ∧
    ∀ (launchId : String) (env : LinkEnv) (cell : Option LinkRecord),
      (launchRecord launchId env.now cell).alone.fits (encodedBytes floatText) = true →
      (∀ (identity : EmulatorIdentity) (method : String) (result : Json),
        Persists floatText launchId (ObservedLink.observeSuccess identity method result) env cell ↔
          (ObservedLink.observeSuccess identity method result env.now (launchRecord launchId env.now cell)).Sound
            (encodedBytes floatText)) ∧
      ∀ (transport : TransportState) (method kind : String),
        Persists floatText launchId (ObservedLink.observeFailure transport method kind) env cell ↔
          (ObservedLink.observeFailure transport method kind env.now (launchRecord launchId env.now cell)).Sound
            (encodedBytes floatText) :=
  ⟨fun _ => bounds_iff_sound least_fits, fun _ _ _ halone =>
    ⟨fun identity method result => persists_iff floatText (observeSuccess_keeps identity method result) halone,
      fun transport method kind => persists_iff floatText (observeFailure_keeps transport method kind) halone⟩⟩

end Persists

section Example

open LinkRecord

def quietEnv : LinkEnv := ⟨0, fun _ => .unknown, .ok ()⟩

theorem link_record_bounds_status :
    Persists (fun _ => []) "launch-one" (ObservedLink.observeSuccess ⟨none, none, none, none, none, none, none, [], none,
      none⟩ "status" (.bool true)) quietEnv none :=
  ((link_record_bounds fun _ => []).2 "launch-one" quietEnv none (by decide +kernel)).1 _ _ _ |>.mpr
    (.inl (by decide +kernel))

/-- An emulator with a name, and what it last said of its status. -/
def reported (name status : String) : LinkRecord :=
  { LinkRecord.new "launch-one" 0 with
    lastIdentity := some ⟨none, none, none, some name, none, none, none, [], none, none⟩
    lastStatus := some (.str status) }

theorem status_mem_fields {r : LinkRecord} {status : Json} (h : r.lastStatus = some status) :
    ("last_status", status) ∈ r.fields := by
  simp [fields, optionField, h]

theorem fits_encoded_iff {floatText : UInt64 → List Char} {r : LinkRecord} :
    r.fits (encodedBytes floatText) = true ↔
      utf8Length (Json.compact floatText (.obj r.fields)) ≤ maxCapsuleFileBytes := by
  simp [fits, encodedBytes]

theorem reported_not_sound {floatText : UInt64 → List Char} {name status : String}
    (hstatus : maxCapsuleFileBytes < status.toList.length) (hname : ¬Cuts 1024 name) :
    ¬(reported name status).Sound (encodedBytes floatText) := by
  rintro (hfits | ⟨hcuts, -⟩)
  · have hlast : (reported name status).withoutToken.lastStatus = some (.str status) := rfl
    have hlength := length_le_compact floatText (status_mem_fields hlast)
    have hbound := (fits_encoded_iff).mp hfits
    omega
  · refine hname (hcuts.identity _ rfl (some name) ?_ name rfl)
    simp [EmulatorIdentity.texts]

theorem utf8Length_replicate (n : ℕ) (c : Char) : utf8Length (List.replicate n c) = n * c.utf8Size := by
  rw [utf8Length, List.map_replicate, List.sum_replicate_nat]

theorem not_cuts_replicate {n limit : ℕ} {c : Char} (hlong : limit < n * c.utf8Size) (hinside : limit % c.utf8Size ≠ 0) :
    ¬Cuts limit (String.ofList (List.replicate n c)) := by
  rw [Cuts, String.toList_ofList, utf8Length_replicate]
  rintro (hshort | ⟨before, after, heq, hlength⟩)
  · omega
  · rw [eq_comm, List.append_eq_replicate_iff] at heq
    rw [heq.2.1, utf8Length_replicate] at hlength
    rw [← hlength, Nat.mul_mod_left] at hinside
    exact hinside rfl

/-- The name has no character boundary at byte 1024, and the cut panics. -/
theorem long_name_not_bounded :
    ¬∀ (floatText : UInt64 → List Char) (r : LinkRecord), r.Bounds (encodedBytes floatText) := by
  intro h
  have hbounds := h (fun _ => []) (reported (String.ofList (List.replicate 342 '가'))
    (String.ofList (List.replicate 131073 'a')))
  refine reported_not_sound ?_ (not_cuts_replicate ?_ ?_) ((bounds_iff_sound least_fits).mp hbounds)
  · rw [String.toList_ofList, List.length_replicate]
    decide
  · decide
  · decide

end Example

end Emucap.Live
