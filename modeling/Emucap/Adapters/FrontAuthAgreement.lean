import Emucap.Adapters.Common.FrontHash
import Emucap.Live.ProducerAuth

/-!
# The native producers authenticate as the Rust producer does

Both sides compute the same keyed hashes, build the same records and check what they read alike, so an
exchange goes the same way on two sockets whose peers send the same bytes, however these arrive: the same
bytes pass in the same order, and both succeed or both fail.
-/

namespace Emucap.Adapters.FrontAuth

open Emucap.Lib

/-! ## Keyed hashes -/

theorem lengthArray_eq (size : ℕ) : lengthArray size = Live.ProducerAuth.lengthBytes size := by
  simp only [lengthArray, Live.ProducerAuth.lengthBytes, Lib.Sha256.bigEndian, ← toByte_shift]
  simp [List.range, List.range.loop, List.replicate, ← BitVec.shiftRight_add]

theorem finish_update (bytes : List UInt8) : (Sha256.new.update bytes).finish = Lib.Sha256.sha256 bytes :=
  new_represents.update.finish

theorem Represents.appendFields (fields : List (List UInt8)) :
    ∀ {hash : Sha256} {rust : Live.ProducerAuth.Sha256}, Represents hash rust.bytes →
      Represents (fields.foldl appendField hash)
        (fields.foldl (fun inner field => (inner.update (Live.ProducerAuth.lengthBytes field.length)).update field)
          rust).bytes := by
  induction fields with
  | nil =>
    intro hash rust h
    exact h
  | cons field fields ih =>
    intro hash rust h
    have hfield : Represents (appendField hash field)
        ((rust.update (Live.ProducerAuth.lengthBytes field.length)).update field).bytes := by
      rw [appendField, lengthArray_eq]
      exact h.update.update
    exact ih hfield

theorem zipWith_pad (pad : UInt8) {keyBlock : List UInt8} (h : keyBlock.length = 64) :
    (List.replicate 64 pad).zipWith (· ^^^ ·) keyBlock = keyBlock.map (· ^^^ pad) := by
  rw [← h]
  clear h
  induction keyBlock with
  | nil => rfl
  | cons b keyBlock ih =>
    rw [List.length_cons, List.replicate_succ, List.zipWith_cons_cons, ih, UInt8.xor_comm]
    rfl

theorem hmac_eq (key : List UInt8) (fields : List (List UInt8)) :
    hmac key fields = Live.ProducerAuth.hmacSha256 key fields := by
  obtain ⟨keyBlock, hkey⟩ : ∃ keyBlock, keyBlock = if key.length > 64 then
      overwrite (List.replicate 64 0) 0 (Lib.Sha256.sha256 key) else overwrite (List.replicate 64 0) 0 key :=
    ⟨_, rfl⟩
  have hlen : keyBlock.length = 64 := by
    rw [hkey]
    split_ifs with hlong
    · rw [length_overwrite (by simp), List.length_replicate]
    · rw [length_overwrite (by rw [List.length_replicate]; omega), List.length_replicate]
  simp only [hmac, Live.ProducerAuth.hmacSha256, finish_update, ← hkey, zipWith_pad _ hlen]
  have hinner : Represents (fields.foldl appendField (Sha256.new.update (keyBlock.map (· ^^^ 0x36)))) _ :=
    Represents.appendFields fields
      (new_represents.update : Represents _ (Live.ProducerAuth.Sha256.new.update (keyBlock.map (· ^^^ 0x36))).bytes)
  rw [hinner.finish]
  exact (new_represents.update.update : Represents _ (_ ++ _ ++ _)).finish

/-! ## Comparisons -/

theorem foldl_or_eq_zero {f : ℕ → UInt8} {n : ℕ} :
    (List.range n).foldl (fun difference index => difference ||| f index) 0 = 0 ↔ ∀ i < n, f i = 0 := by
  induction n with
  | zero => simp
  | succ n ih =>
    rw [List.range_succ, List.foldl_append, List.foldl_cons, List.foldl_nil, UInt8.or_eq_zero_iff, ih]
    constructor
    · rintro ⟨hbefore, hlast⟩ i hi
      rcases Nat.lt_succ_iff_lt_or_eq.mp hi with hlt | rfl
      · exact hbefore i hlt
      · exact hlast
    · intro h
      exact ⟨fun i hi => h i (Nat.lt_succ_of_lt hi), h n (Nat.lt_succ_self n)⟩

theorem equal_iff {left right : List UInt8} (h : left.length = right.length) :
    equal left right right.length = true ↔ left = right := by
  rw [equal, beq_iff_eq, foldl_or_eq_zero]
  constructor
  · intro hbytes
    refine List.ext_getElem h fun i hi hi' => ?_
    have hbyte := UInt8.xor_eq_zero_iff.mp (hbytes i hi')
    rwa [List.getD_eq_getElem _ _ hi, List.getD_eq_getElem _ _ hi'] at hbyte
  · rintro rfl i _
    exact UInt8.xor_eq_zero_iff.mpr rfl

theorem header_eq {bytes : List UInt8} (h : 7 ≤ bytes.length) (type : UInt8) (b : Live.ProducerAuth.Boundary) :
    header bytes type b.wireId = Live.ProducerAuth.headerMatches bytes type b := by
  have hmagic : utf8 "ECFA" = [0x45, 0x43, 0x46, 0x41] := by decide
  match bytes, h with
  | b₀ :: b₁ :: b₂ :: b₃ :: b₄ :: b₅ :: b₆ :: rest, h =>
    rw [Bool.eq_iff_iff]
    simp [header, Live.ProducerAuth.headerMatches, Live.ProducerAuth.header, Live.ProducerAuth.magic,
      Live.ProducerAuth.version, hmagic, and_assoc]

theorem setHeader_eq {n : ℕ} (type : UInt8) (b : Live.ProducerAuth.Boundary) :
    setHeader (List.replicate (n + 7) 0) type b.wireId
      = overwrite (List.replicate (n + 7) 0) 0 (Live.ProducerAuth.header type b) := by
  have hmagic : utf8 "ECFA" = [0x45, 0x43, 0x46, 0x41] := by decide
  simp [setHeader, overwrite, Live.ProducerAuth.header, Live.ProducerAuth.magic, Live.ProducerAuth.version, hmagic,
    List.replicate_succ]

theorem port_ne_iff {challenge : List UInt8} (h : challenge.length = kChallengeSize) (port : UInt16) :
    (challenge.getD 7 0 ≠ (port >>> 8).toUInt8 ∨ challenge.getD 8 0 ≠ port.toUInt8) ↔
      (challenge.drop 7).take 2 ≠ Lib.Sha256.bigEndian 2 port.toBitVec := by
  have hhigh : (port >>> 8).toUInt8 = UInt8.ofBitVec (port.toBitVec.extractLsb' 8 8) := by
    rw [← toByte_shift]
    rfl
  have hlow : port.toUInt8 = UInt8.ofBitVec (port.toBitVec.extractLsb' 0 8) := by
    rw [← toByte_shift]
    rfl
  have hport : Lib.Sha256.bigEndian 2 port.toBitVec = [(port >>> 8).toUInt8, port.toUInt8] := by
    rw [hhigh, hlow]
    rfl
  have hpair : (challenge.drop 7).take 2 = [challenge.getD 7 0, challenge.getD 8 0] := by
    have h7 : 7 < challenge.length := by rw [h]; decide
    have h8 : 8 < challenge.length := by rw [h]; decide
    rw [List.drop_eq_getElem_cons h7, List.drop_eq_getElem_cons h8, List.getD_eq_getElem _ _ h7,
      List.getD_eq_getElem _ _ h8]
    rfl
  rw [hport, hpair, ← not_and_or, not_iff_not]
  simp

/-! ## Keys and identities -/

theorem validLaunchId_eq (launchId : List UInt8) :
    validLaunchId launchId = Live.ProducerAuth.validLaunchId launchId := by
  have hlen : (utf8 "launch-").length = 7 := by decide
  rw [validLaunchId, Live.ProducerAuth.validLaunchId, isPrefixOf?_eq, hlen]
  by_cases htext : launchId.take 7 = utf8 "launch-"
  · by_cases hsize : launchId.length = 33
    · have hulid : (launchId.drop 7).length = 26 := by rw [List.length_drop, hsize]
      simp [htext, hsize, hulid, kLaunchIdSize, Live.ProducerAuth.launchIdSize]
      rfl
    · simp [htext, hsize, kLaunchIdSize, Live.ProducerAuth.launchIdSize]
  · simp [htext]

theorem length_keyPrefix (b : Live.ProducerAuth.Boundary) : b.keyPrefix.length = 13 := by
  cases b with
  | direct => decide
  | brokerProducer => decide

theorem validateFrontKey_iff (key : List UInt8) (b : Live.ProducerAuth.Boundary) :
    Live.ProducerAuth.validateFrontKey key b = .ok () ↔ key.take 13 = b.keyPrefix ∧ validHex (key.drop 13) = true := by
  rw [Live.ProducerAuth.validateFrontKey, isPrefixOf?_eq, length_keyPrefix]
  by_cases htext : key.take 13 = b.keyPrefix
  · have hhex : validHex (key.drop 13) = true ↔
        ¬ ((key.drop 13).length ≠ Live.ProducerAuth.frontKeyHexSize ∨
          ¬ (key.drop 13).all Live.ProducerAuth.isAsciiHexdigit = true) := by
      rw [validHex, not_or, not_not, not_not]
      by_cases hsize : (key.drop 13).length = 64
      · rw [if_neg (not_not.mpr hsize)]
        exact ⟨fun h => ⟨hsize, h⟩, And.right⟩
      · rw [if_pos hsize]
        exact ⟨fun h => (nomatch h), fun h => absurd h.1 hsize⟩
    rw [if_pos htext, hhex]
    simp only [htext, true_and]
    split_ifs with hbad
    · exact ⟨fun h => (nomatch h), fun h => absurd hbad h⟩
    · exact ⟨fun _ => hbad, fun _ => rfl⟩
  · simp [htext]

theorem keyPrefix_ne : Live.ProducerAuth.Boundary.keyPrefix .brokerProducer
    ≠ Live.ProducerAuth.Boundary.keyPrefix .direct := by decide

theorem boundary_eq (key : List UInt8) :
    boundary key = if Live.ProducerAuth.validateFrontKey key .direct = .ok () then 1
      else if Live.ProducerAuth.validateFrontKey key .brokerProducer = .ok () then 2 else 0 := by
  simp only [validateFrontKey_iff]
  rfl

theorem boundary_eq_wireId_iff (key : List UInt8) (b : Live.ProducerAuth.Boundary) :
    boundary key = b.wireId ↔ Live.ProducerAuth.validateFrontKey key b = .ok () := by
  rw [boundary_eq]
  by_cases hdirect : Live.ProducerAuth.validateFrontKey key .direct = .ok ()
  · have hbroker : Live.ProducerAuth.validateFrontKey key .brokerProducer ≠ .ok () := by
      intro hbroker
      rw [validateFrontKey_iff] at hdirect hbroker
      exact keyPrefix_ne (hbroker.1.symm.trans hdirect.1)
    rw [if_pos hdirect]
    cases b with
    | direct => exact ⟨fun _ => hdirect, fun _ => rfl⟩
    | brokerProducer => exact ⟨fun h => absurd h (by decide), fun h => absurd h hbroker⟩
  · rw [if_neg hdirect]
    cases b with
    | direct =>
      refine ⟨fun h => absurd h ?_, fun h => absurd h hdirect⟩
      split_ifs <;> decide
    | brokerProducer =>
      split_ifs with hbroker
      · exact ⟨fun _ => hbroker, fun _ => rfl⟩
      · exact ⟨fun h => absurd h (by decide), fun h => absurd h hbroker⟩

theorem boundary_eq_zero_iff (key : List UInt8) :
    boundary key = 0 ↔ ∀ b, Live.ProducerAuth.validateFrontKey key b ≠ .ok () := by
  constructor
  · intro hzero b hb
    rw [← boundary_eq_wireId_iff, hzero] at hb
    cases b with
    | direct => exact absurd hb (by decide)
    | brokerProducer => exact absurd hb (by decide)
  · intro h
    rw [boundary_eq, if_neg (h .direct), if_neg (h .brokerProducer)]

theorem fromFrontKey_of_valid {key : List UInt8} {b : Live.ProducerAuth.Boundary}
    (h : Live.ProducerAuth.validateFrontKey key b = .ok ()) :
    Live.ProducerAuth.Boundary.fromFrontKey key = some b := by
  have htext := ((validateFrontKey_iff key b).mp h).1
  have hfound (c : Live.ProducerAuth.Boundary) : c.keyPrefix.isPrefixOf key = true ↔ key.take 13 = c.keyPrefix := by
    rw [List.isPrefixOf_iff_prefix, List.prefix_iff_eq_take, length_keyPrefix, eq_comm]
  have hnot : b = .brokerProducer → Live.ProducerAuth.Boundary.keyPrefix .direct ≠ key.take 13 := by
    rintro rfl hdirect
    exact keyPrefix_ne (htext.symm.trans hdirect.symm)
  rw [Live.ProducerAuth.Boundary.fromFrontKey, List.find?_cons, List.find?_cons]
  cases b with
  | direct => rw [(hfound _).mpr htext]
  | brokerProducer =>
    have hdirect : (Live.ProducerAuth.Boundary.keyPrefix .direct).isPrefixOf key = false :=
      Bool.eq_false_iff.mpr fun h => hnot rfl ((hfound _).mp h).symm
    rw [hdirect, (hfound _).mpr htext]

/-! ## The exchange -/

/-- Two sockets without failing calls that have come equally far. -/
structure Alike (s t : Socket) : Prop where
  incoming : s.incoming = t.incoming
  trace : s.trace = t.trace
  left : .fails ∉ s.calls
  right : .fails ∉ t.calls

theorem Alike.readExact {s t : Socket} (h : Alike s t) (size : ℕ) :
    ∃ (r : Option (List UInt8)) (s' t' : Socket), Alike s' t' ∧ (∀ bytes, r = some bytes → bytes.length = size) ∧
      s.readExact size = (r, s') ∧ t.readExact size = (r, t') := by
  obtain ⟨calls, hcalls, hs⟩ := Socket.readExact_eq h.left size
  obtain ⟨calls', hcalls', ht⟩ := Socket.readExact_eq h.right size
  rw [← h.incoming, ← h.trace] at ht
  refine ⟨_, _, _, ?_, ?_, hs, ht⟩
  · exact ⟨rfl, rfl, hcalls, hcalls'⟩
  · intro bytes hbytes
    split_ifs at hbytes with hsize
    obtain rfl := Option.some.inj hbytes
    rw [List.length_take]
    omega

theorem Alike.writeAll {s t : Socket} (h : Alike s t) (bytes : List UInt8) :
    ∃ s' t' : Socket, Alike s' t' ∧ s.writeAll bytes = (true, s') ∧ t.writeAll bytes = (true, t') := by
  obtain ⟨calls, hcalls, hs⟩ := Socket.writeAll_eq h.left bytes
  obtain ⟨calls', hcalls', ht⟩ := Socket.writeAll_eq h.right bytes
  rw [← h.incoming, ← h.trace] at ht
  refine ⟨_, _, ?_, hs, ht⟩
  exact ⟨rfl, rfl, hcalls, hcalls'⟩

/-- Both succeed or both fail, and the same bytes have passed. -/
def Agree (native : Bool × Socket) (rust : Except Live.ProducerAuth.IoError Unit × Socket) : Prop :=
  (native.1 = true ↔ rust.1 = .ok ()) ∧ native.2.trace = rust.2.trace

/-- The two function arguments that the adapters pass to `Authenticate`. -/
abbrev authenticateOn (frontKey launchId : List UInt8) (port : UInt16) : StateM Socket Bool :=
  authenticate frontKey launchId port (fun size s => s.readExact size) (fun bytes s => s.writeAll bytes)

section Steps

variable {s t : Socket}

theorem agree_fail {e : Live.ProducerAuth.IoError} (h : Alike s t) : Agree (false, s) (.error e, t) :=
  ⟨⟨fun h => (nomatch h), fun h => (nomatch h)⟩, h.trace⟩

theorem agree_failIf {c c' : Prop} [Decidable c] [Decidable c'] {e : Live.ProducerAuth.IoError} {native : StateM Socket Bool}
    {rust : Unit → Live.ProducerAuth.Io Unit} (h : Alike s t) (hc : c ↔ c') (hnext : ¬ c → Agree (native s) (rust () t)) :
    Agree ((if c then pure false else native) s)
      ((Live.ProducerAuth.failIf c' e >>= rust : Live.ProducerAuth.Io Unit) t) := by
  unfold Live.ProducerAuth.failIf
  by_cases hfails : c
  · rw [if_pos hfails, if_pos (hc.mp hfails)]
    exact agree_fail h
  · rw [if_neg hfails, if_neg fun h => hfails (hc.mpr h)]
    exact hnext hfails

theorem agree_failIf_or {c₁ c₂ c' : Prop} [Decidable c₁] [Decidable c₂] [Decidable c'] {e : Live.ProducerAuth.IoError}
    {native : StateM Socket Bool} {rust : Unit → Live.ProducerAuth.Io Unit} (h : Alike s t) (hc : c₁ ∨ c₂ ↔ c')
    (hnext : Agree (native s) (rust () t)) :
    Agree ((if c₁ then pure false else if c₂ then pure false else native) s)
      ((Live.ProducerAuth.failIf c' e >>= rust : Live.ProducerAuth.Io Unit) t) := by
  have hmerge : (if c₁ then pure false else if c₂ then pure false else native)
      = if c₁ ∨ c₂ then pure false else native := by
    by_cases h₁ : c₁
    · simp [h₁]
    · simp [h₁]
  rw [hmerge]
  exact agree_failIf h hc fun _ => hnext

theorem bind_of_run {α : Type} {x : StateM Socket α} {f : α → StateM Socket Bool} {a : α} {s' : Socket}
    (h : x s = (a, s')) : (x >>= f) s = f a s' := by
  show (match x s with | (a, s') => f a s') = _
  rw [h]

theorem agree_read {size : ℕ} {native : Option (List UInt8) → StateM Socket Bool}
    {rust : List UInt8 → Live.ProducerAuth.Io Unit} (h : Alike s t) (hnone : native none = pure false)
    (hnext : ∀ bytes s t, bytes.length = size → Alike s t → Agree (native (some bytes) s) (rust bytes t)) :
    Agree (((fun s => s.readExact size : StateM Socket _) >>= native) s)
      ((Live.ProducerAuth.readExactUntil size >>= rust : Live.ProducerAuth.Io Unit) t) := by
  obtain ⟨r, s', t', h', hsize, hs, ht⟩ := h.readExact size
  rw [bind_of_run hs]
  cases r with
  | none =>
    have hrust : Live.ProducerAuth.readExactUntil size t = (.error .stream, t') := by
      rw [Live.ProducerAuth.readExactUntil, ht]
    rw [Live.ProducerAuth.bind_error hrust, hnone]
    exact agree_fail h'
  | some bytes =>
    have hrust : Live.ProducerAuth.readExactUntil size t = (.ok bytes, t') := by
      rw [Live.ProducerAuth.readExactUntil, ht]
    rw [Live.ProducerAuth.bind_ok hrust]
    exact hnext bytes s' t' (hsize bytes rfl) h'

theorem agree_write {bytes : List UInt8} {native : Bool → StateM Socket Bool}
    {rust : Unit → Live.ProducerAuth.Io Unit} (h : Alike s t)
    (hnext : ∀ s t, Alike s t → Agree (native true s) (rust () t)) :
    Agree (((fun s => s.writeAll bytes : StateM Socket _) >>= native) s)
      ((Live.ProducerAuth.writeAllUntil bytes >>= rust : Live.ProducerAuth.Io Unit) t) := by
  obtain ⟨s', t', h', hs, ht⟩ := h.writeAll bytes
  have hrust : Live.ProducerAuth.writeAllUntil bytes t = (.ok (), t') := by
    rw [Live.ProducerAuth.writeAllUntil, ht]
  rw [bind_of_run hs, Live.ProducerAuth.bind_ok hrust]
  exact hnext s' t' h'

end Steps

theorem length_hmacSha256 (key : List UInt8) (fields : List (List UInt8)) :
    (Live.ProducerAuth.hmacSha256 key fields).length = 32 := Lib.Sha256.length_sha256 _

theorem agree_last {ok : List UInt8} {b : Live.ProducerAuth.Boundary} {s t : Socket} {e : Live.ProducerAuth.IoError}
    (h : Alike s t) (hok : ok.length = 7) :
    Agree ((pure (header ok 5 b.wireId) : StateM Socket Bool) s)
      (Live.ProducerAuth.failIf (ok ≠ Live.ProducerAuth.listenerOkRecord b) e t) := by
  have hiff : header ok 5 b.wireId = true ↔ ok = Live.ProducerAuth.listenerOkRecord b := by
    rw [header_eq (by omega), Live.ProducerAuth.headerMatches, List.take_of_length_le (by omega)]
    simp [hok, Live.ProducerAuth.listenerOkRecord, Live.ProducerAuth.listenerOk]
  by_cases hequal : ok = Live.ProducerAuth.listenerOkRecord b
  · rw [Live.ProducerAuth.failIf_of_not (not_not.mpr hequal)]
    exact ⟨⟨fun _ => rfl, fun _ => hiff.mpr hequal⟩, h.trace⟩
  · rw [Live.ProducerAuth.failIf, if_pos hequal]
    exact ⟨⟨fun hheader => absurd (hiff.mp hheader) hequal, fun herror => by cases herror⟩, h.trace⟩

theorem agree_of_valid {frontKey launchId : List UInt8} {b : Live.ProducerAuth.Boundary} (port : UInt16)
    (hkey : Live.ProducerAuth.validateFrontKey frontKey b = .ok ()) (hlaunch : validLaunchId launchId = true)
    {s t : Socket} (h : Alike s t) :
    Agree (authenticateOn frontKey launchId port s)
      (Live.ProducerAuth.authenticateProducerStream frontKey b port launchId t) := by
  have hboundary : boundary frontKey = b.wireId := (boundary_eq_wireId_iff frontKey b).mpr hkey
  have hid : b.wireId ≠ 0 := by
    cases b with
    | direct => decide
    | brokerProducer => decide
  have hbad : ¬ (b.wireId = 0 ∨ ¬ validLaunchId launchId = true) := by simp [hid, hlaunch]
  have hproducer : setHeader (List.replicate kProducerProofSize 0) 2 b.wireId
      = overwrite (List.replicate Live.ProducerAuth.producerProofSize 0) 0
        (Live.ProducerAuth.header Live.ProducerAuth.producerProof b) := setHeader_eq (n := 81) 2 b
  have hcommit : setHeader (List.replicate kDirectionalProofSize 0) 4 b.wireId
      = overwrite (List.replicate Live.ProducerAuth.directionalProofSize 0) 0
        (Live.ProducerAuth.header Live.ProducerAuth.producerCommit b) := setHeader_eq (n := 32) 4 b
  have hlift : Live.ProducerAuth.authenticateProducerStream.liftExcept
      (Live.ProducerAuth.validateFrontKey frontKey b) t = (.ok (), t) := by
    rw [hkey]
    rfl
  have hmanaged : ¬ ¬ Live.ProducerAuth.validLaunchId launchId = true := by
    rw [← validLaunchId_eq, not_not]
    exact hlaunch
  unfold authenticateOn authenticate Live.ProducerAuth.authenticateProducerStream
  simp only [hboundary, hproducer, hcommit, hmac_eq]
  rw [if_neg hbad, Live.ProducerAuth.bind_ok hlift]
  rw [Live.ProducerAuth.bind_ok (Live.ProducerAuth.failIf_of_not hmanaged t)]
  refine agree_read h rfl fun challenge s t hchallenge h => ?_
  have hfirst : (¬ header challenge 1 b.wireId = true ∨ challenge.getD 7 0 ≠ (port >>> 8).toUInt8 ∨
      challenge.getD 8 0 ≠ port.toUInt8) ↔
        (¬ Live.ProducerAuth.headerMatches challenge Live.ProducerAuth.listenerChallenge b = true ∨
          (challenge.drop 7).take 2 ≠ Lib.Sha256.bigEndian 2 port.toBitVec) := by
    rw [header_eq (by rw [hchallenge]; decide), port_ne_iff hchallenge]
    rfl
  refine agree_failIf h hfirst fun _ => ?_
  refine agree_write h fun s t h => ?_
  refine agree_read h rfl fun listener s t hlistener h => ?_
  refine agree_failIf_or h ?_ ?_
  · have hproof : (listener.drop 7).length = 32 := by
      rw [List.length_drop, hlistener]
      rfl
    rw [header_eq (by rw [hlistener]; decide), equal_iff (by rw [hproof, length_hmacSha256]),
      Live.ProducerAuth.proofMatches_iff, @eq_comm _ (listener.drop 7)]
    rfl
  refine agree_write h fun s t h => ?_
  refine agree_read h rfl fun ok s t hok h => ?_
  exact agree_last h hok

theorem authenticate_of_invalid {frontKey launchId : List UInt8} (port : UInt16)
    (h : boundary frontKey = 0 ∨ ¬ validLaunchId launchId = true) (s : Socket) :
    authenticateOn frontKey launchId port s = (false, s) := by
  simp only [authenticateOn, authenticate, if_pos h]
  rfl

theorem authenticateProducerStream_of_invalid {frontKey launchId : List UInt8} {b : Live.ProducerAuth.Boundary}
    (port : UInt16)
    (h : Live.ProducerAuth.validateFrontKey frontKey b ≠ .ok () ∨ ¬ validLaunchId launchId = true) (t : Socket) :
    ∃ e, Live.ProducerAuth.authenticateProducerStream frontKey b port launchId t = (.error e, t) := by
  unfold Live.ProducerAuth.authenticateProducerStream
  rcases hkey : Live.ProducerAuth.validateFrontKey frontKey b with e | ⟨⟩
  · exact ⟨e, rfl⟩
  · have hlaunch : ¬ Live.ProducerAuth.validLaunchId launchId = true := by
      rw [← validLaunchId_eq]
      exact h.resolve_left (not_not.mpr hkey)
    refine ⟨.invalidInput "producer authentication requires a managed launch identity", ?_⟩
    rw [Live.ProducerAuth.failIf, if_pos hlaunch]
    rfl

/-- For every front key, launch identity and port, and for every byte sequence a peer sends to the two
producers, however it arrives: they succeed together for the boundary that the key names, and the same
bytes pass in the same order. Nothing passes when the key or the identity is not well formed. The native
hash is SHA-256 however its input is split. -/
theorem authenticate_agrees :
    (∀ parts : List (List UInt8),
      (parts.foldl Sha256.update Sha256.new).finish = Lib.Sha256.sha256 parts.flatten) ∧
    ∀ (frontKey launchId : List UInt8) (port : UInt16) (peer : List UInt8) (calls calls' : List Transfer),
      .fails ∉ calls → .fails ∉ calls' →
      let native := authenticateOn frontKey launchId port ⟨peer, calls, []⟩
      let rust (b : Live.ProducerAuth.Boundary) :=
        Live.ProducerAuth.authenticateProducerStream frontKey b port launchId ⟨peer, calls', []⟩
      (∀ b, Live.ProducerAuth.Boundary.fromFrontKey frontKey = some b →
        (native.1 = true ↔ (rust b).1 = .ok ()) ∧ native.2.trace = (rust b).2.trace) ∧
      (Live.ProducerAuth.Boundary.fromFrontKey frontKey = none →
        native.1 = false ∧ ∀ b, (rust b).1 ≠ .ok ()) ∧
      ((∀ b, Live.ProducerAuth.validateFrontKey frontKey b ≠ .ok ()) ∨
          Live.ProducerAuth.validLaunchId launchId = false →
        native.2.trace = [] ∧ ∀ b, (rust b).2.trace = []) := by
  refine ⟨finish_updates, ?_⟩
  intro frontKey launchId port peer calls calls' hcalls hcalls' native rust
  refine ⟨?_, ?_, ?_⟩
  · intro b hb
    have halike : Alike ⟨peer, calls, []⟩ ⟨peer, calls', []⟩ := ⟨rfl, rfl, hcalls, hcalls'⟩
    by_cases hvalid : Live.ProducerAuth.validateFrontKey frontKey b = .ok () ∧ validLaunchId launchId = true
    · exact agree_of_valid port hvalid.1 hvalid.2 halike
    · have hother (c : Live.ProducerAuth.Boundary) (hc : Live.ProducerAuth.validateFrontKey frontKey c = .ok ()) : c = b :=
        Option.some.inj ((fromFrontKey_of_valid hc).symm.trans hb)
      have hnative : boundary frontKey = 0 ∨ ¬ validLaunchId launchId = true := by
        rw [boundary_eq_zero_iff]
        refine (not_and_or.mp hvalid).imp_left fun hkey c hc => ?_
        rw [hother c hc] at hc
        exact hkey hc
      obtain ⟨e, he⟩ := authenticateProducerStream_of_invalid port (not_and_or.mp hvalid) ⟨peer, calls', []⟩
      have hagree := agree_fail (e := e) halike
      rwa [← authenticate_of_invalid port hnative, ← he] at hagree
  · intro hnone
    have hkey (c : Live.ProducerAuth.Boundary) : Live.ProducerAuth.validateFrontKey frontKey c ≠ .ok () := by
      intro hc
      rw [fromFrontKey_of_valid hc] at hnone
      exact nomatch hnone
    refine ⟨?_, fun b => ?_⟩
    · exact congrArg Prod.fst (authenticate_of_invalid port (.inl ((boundary_eq_zero_iff frontKey).mpr hkey)) _)
    · obtain ⟨e, he⟩ : ∃ e, rust b = (.error e, _) := authenticateProducerStream_of_invalid port (.inl (hkey b)) _
      rw [he]
      exact fun herror => (nomatch herror)
  · intro hbad
    have hlaunch : Live.ProducerAuth.validLaunchId launchId = false → ¬ validLaunchId launchId = true := by
      rw [validLaunchId_eq]
      exact fun h => by simp [h]
    refine ⟨?_, fun b => ?_⟩
    · have hnative : native = (false, _) :=
        authenticate_of_invalid port (hbad.imp (boundary_eq_zero_iff frontKey).mpr hlaunch) _
      rw [hnative]
    · obtain ⟨e, he⟩ : ∃ e, rust b = (.error e, _) :=
        authenticateProducerStream_of_invalid port (hbad.imp (fun h => h b) hlaunch) _
      rw [he]

/-- A peer that closes after its challenge: the producers have proved themselves to it and fail. -/
theorem authenticate_agrees_closed :
    let frontKey := utf8 "front-direct-" ++ List.replicate 64 0x30
    let launchId := utf8 "launch-01arz3ndektsv4rrffq69g5fav"
    let peer := utf8 "ECFA" ++ [1, 1, 1, 0xba, 0xb8] ++ List.replicate 16 7
    let native := authenticateOn frontKey launchId 47800 ⟨peer, [.moves 3, .interrupted], []⟩
    let rust := Live.ProducerAuth.authenticateProducerStream frontKey .direct 47800 launchId ⟨peer, [], []⟩
    Live.ProducerAuth.Boundary.fromFrontKey frontKey = some .direct ∧ rust.2.trace.length = 113 ∧
      (native.1 = true ↔ rust.1 = .ok ()) ∧ native.2.trace = rust.2.trace := by
  intro frontKey launchId peer native rust
  have hkey : Live.ProducerAuth.Boundary.fromFrontKey frontKey = some .direct := by decide
  refine ⟨hkey, by decide +kernel, ?_⟩
  exact (authenticate_agrees.2 frontKey launchId 47800 peer [.moves 3, .interrupted] [] (by decide)
    (by decide)).1 .direct hkey

end Emucap.Adapters.FrontAuth
