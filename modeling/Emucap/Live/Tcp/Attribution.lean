import Emucap.Live.Tcp.Call

/-!
# Whose reply a call returns

The log of a link is read one connection at a time. What a `Clean` connection brought in was delivered or is unread; a
`Closed` one was not touched afterwards. `Did` says what a call adds, and `Inv` composes along the calls.
-/

namespace Emucap.Live.Tcp

open Emucap.Lib

/-! ## What happened on one connection -/

namespace What

def io : What → Bool
  | .abandoned => false
  | _ => true

def requests : What → List Request
  | .line request _ => [request]
  | .rejected (some (request, _)) => [request]
  | _ => []

def delivered : What → Option Delivery
  | .read d => d
  | _ => none

section
variable (document : String → Line)

/-- A write failed or was cut short, a frame was not one, the stream ended, a deadline expired or a notice was
refused. -/
def fatal : What → Bool
  | .line _ whole => !whole
  | .read none => false
  | .read (some (.frame text)) => (Response.parse (document text)).isNone
  | .read (some _) | .lost | .rejected _ | .abandoned => true

def response : What → Option Response
  | .read (some (.frame text)) => Response.parse (document text)
  | _ => none

end

end What

def on (key : ℕ) (log : List WireEvent) : List What := (log.filter fun e => e.key = key).map WireEvent.what

theorem on_append (key : ℕ) (log log' : List WireEvent) : on key (log ++ log') = on key log ++ on key log' := by
  rw [on, List.filter_append, List.map_append]
  rfl

theorem on_own (key : ℕ) (ws : List What) : on key (ws.map (WireEvent.mk key)) = ws := by
  induction ws with
  | nil => rfl
  | cons w ws ih =>
    rw [List.map_cons, on, List.filter_cons_of_pos (by simp), List.map_cons]
    rw [on] at ih
    rw [ih]

theorem on_other {key key' : ℕ} (h : key ≠ key') (ws : List What) : on key (ws.map (WireEvent.mk key')) = [] := by
  rw [on, List.map_eq_nil_iff, List.filter_eq_nil_iff]
  intro e he
  obtain ⟨w, -, rfl⟩ := List.mem_map.mp he
  simpa using Ne.symm h

def ids (ws : List What) : List ℕ := (ws.flatMap What.requests).map Request.id

theorem ids_append (ws ws' : List What) : ids (ws ++ ws') = ids ws ++ ids ws' := by
  rw [ids, List.flatMap_append, List.map_append]
  rfl

def written (log : List WireEvent) : List ℕ := ids (log.map WireEvent.what)

theorem written_append (log : List WireEvent) (key : ℕ) (ws : List What) :
    written (log ++ ws.map (WireEvent.mk key)) = written log ++ ids ws := by
  have hwhat : (ws.map (WireEvent.mk key)).map WireEvent.what = ws := by
    rw [List.map_map]
    exact List.map_id ws
  rw [written, List.map_append, ids_append, hwhat]
  rfl

section codec
variable (document : String → Line)

structure Clean (ws : List What) (stream : List UInt8) (io : Conn) : Prop where
  sound : ∀ w ∈ ws, w.fatal document = false
  held : io.Held maxFrameBytes
  framed : framing maxFrameBytes stream = ws.filterMap What.delivered ++ framing maxFrameBytes io.unread

/-- After an event that went wrong there is no other. -/
structure Closed (ws : List What) (stream : List UInt8) : Prop where
  fenced : ws.Pairwise fun w w' => w.fatal document = true → w'.io = false
  framed : ws.filterMap What.delivered <+: framing maxFrameBytes stream

end codec

section
variable {document : String → Line} {ws ws' : List What} {stream : List UInt8} {io io' : Conn}

theorem Clean.nil (h : io.Held maxFrameBytes) : Clean document [] io.unread io := ⟨by simp, h, rfl⟩

theorem Clean.append (h : Clean document ws stream io) (h' : Clean document ws' io.unread io') :
    Clean document (ws ++ ws') stream io' where
  sound := by
    intro w hw
    rcases List.mem_append.mp hw with hw | hw
    · exact h.sound w hw
    · exact h'.sound w hw
  held := h'.held
  framed := by rw [h.framed, h'.framed, List.filterMap_append, List.append_assoc]

theorem Clean.append_closed (h : Clean document ws stream io) (h' : Closed document ws' io.unread) :
    Closed document (ws ++ ws') stream where
  fenced := by
    have hsound : ws.Pairwise fun w w' => w.fatal document = true → w'.io = false := by
      refine List.Pairwise.imp_of_mem (fun {w w'} hw _ _ hfatal => ?_) (List.pairwise_of_forall (R := fun _ _ => True)
        (fun _ _ => trivial))
      rw [h.sound w hw] at hfatal
      cases hfatal
    refine List.pairwise_append.mpr ⟨hsound, h'.fenced, fun w hw w' _ hfatal => ?_⟩
    rw [h.sound w hw] at hfatal
    cases hfatal
  framed := by
    rw [h.framed, List.filterMap_append]
    exact (List.prefix_append_right_inj _).mpr h'.framed

theorem Clean.closed (h : Clean document ws stream io) : Closed document ws stream := by
  have hnil : Closed document [] io.unread := ⟨List.Pairwise.nil, List.nil_prefix⟩
  have happend := h.append_closed hnil
  rwa [List.append_nil] at happend

theorem Closed.abandon (h : Closed document ws stream) : Closed document (ws ++ [.abandoned]) stream where
  fenced := by
    refine List.pairwise_append.mpr ⟨h.fenced, List.pairwise_singleton _ _, fun w _ w' hw' _ => ?_⟩
    rw [List.mem_singleton.mp hw']
    rfl
  framed := by
    rw [List.filterMap_append]
    exact (List.append_nil _).symm ▸ h.framed

theorem Closed.single {w : What} (h : w.delivered.toList <+: framing maxFrameBytes stream) :
    Closed document [w] stream := by
  refine ⟨List.pairwise_singleton _ _, ?_⟩
  rw [List.filterMap_cons]
  cases hw : w.delivered with
  | none => exact List.nil_prefix
  | some d =>
    rw [hw] at h
    exact h

end

/-! ## What a part of a call does -/

def maxId : ℕ := 2 ^ 64 - 1

/-- The lines of `ws` took their identifiers in order, from `next` on. -/
structure Numbered (next : ℕ) (ws : List What) (next' : ℕ) : Prop where
  le : next ≤ next'
  sorted : (ids ws).Pairwise (· < ·)
  bounds : ∀ i ∈ ids ws, next ≤ i ∧ i < next'

theorem Numbered.quiet {ws : List What} (next : ℕ) (h : ids ws = []) : Numbered next ws next := by
  refine ⟨Nat.le_refl _, ?_, ?_⟩
  · rw [h]
    exact List.Pairwise.nil
  · rw [h]
    simp

theorem Numbered.append {next next' next'' : ℕ} {ws ws' : List What} (h : Numbered next ws next')
    (h' : Numbered next' ws' next'') : Numbered next (ws ++ ws') next'' where
  le := Nat.le_trans h.le h'.le
  sorted := by
    rw [ids_append]
    refine List.pairwise_append.mpr ⟨h.sorted, h'.sorted, fun i hi j hj => ?_⟩
    exact Nat.lt_of_lt_of_le (h.bounds i hi).2 (h'.bounds j hj).1
  bounds := by
    rw [ids_append]
    intro i hi
    rcases List.mem_append.mp hi with hi | hi
    · exact ⟨(h.bounds i hi).1, Nat.lt_of_lt_of_le (h.bounds i hi).2 h'.le⟩
    · exact ⟨Nat.le_trans h.le (h'.bounds i hi).1, (h'.bounds i hi).2⟩

theorem advanceId_nextId {link : TcpLink} (h : link.advanceId.nextId < maxId) :
    link.advanceId.nextId = link.nextId + 1 := by
  have hmin : link.advanceId.nextId = min (link.nextId + 1) maxId := rfl
  rw [hmin] at h ⊢
  omega

theorem Numbered.advance {link : TcpLink} {w : What} (h : link.advanceId.nextId < maxId)
    (hw : ids [w] = [link.nextId]) : Numbered link.nextId [w] link.advanceId.nextId := by
  rw [advanceId_nextId h]
  refine ⟨Nat.le_succ _, ?_, ?_⟩
  · rw [hw]
    exact List.pairwise_singleton _ _
  · rw [hw]
    intro i hi
    rw [List.mem_singleton.mp hi]
    omega

/-- What a part of a call on the connection `a` did. -/
structure Did (document : String → Line) (a : Attachment) (ws : List What) (link link' : TcpLink) : Prop where
  log : link'.log = link.log ++ ws.map (WireEvent.mk a.key)
  streams : link'.streams = link.streams
  ids : link'.nextId < maxId → Numbered link.nextId ws link'.nextId
  conn : (∃ io, link'.conn = some ⟨a.key, io⟩ ∧ Clean document ws a.io.unread io) ∨
    link'.conn = none ∧ Closed document ws a.io.unread

section
variable {document : String → Line} {a : Attachment} {ws ws' : List What} {link link' link'' : TcpLink}

theorem Did.refl (hconn : link.conn = some a) (hheld : a.io.Held maxFrameBytes) : Did document a [] link link where
  log := by simp
  streams := rfl
  ids := fun _ => .quiet _ rfl
  conn := .inl ⟨a.io, hconn, .nil hheld⟩

theorem Did.clean {io : Conn} (h : Did document a ws link link') (hconn : link'.conn = some ⟨a.key, io⟩) :
    Clean document ws a.io.unread io := by
  rcases h.conn with ⟨io', hio, hclean⟩ | ⟨hnone, -⟩
  · rw [hconn] at hio
    cases hio
    exact hclean
  · rw [hconn] at hnone
    cases hnone

theorem Did.closed (h : Did document a ws link link') : Closed document ws a.io.unread := by
  rcases h.conn with ⟨io, -, hclean⟩ | ⟨-, hclosed⟩
  · exact hclean.closed
  · exact hclosed

theorem Did.append {io : Conn} (h : Did document a ws link link') (hconn : link'.conn = some ⟨a.key, io⟩)
    (h' : Did document ⟨a.key, io⟩ ws' link' link'') : Did document a (ws ++ ws') link link'' where
  log := by rw [h'.log, h.log, List.map_append, List.append_assoc]
  streams := h'.streams.trans h.streams
  ids := by
    intro hmax
    have hnumbered := h'.ids hmax
    exact (h.ids (Nat.lt_of_le_of_lt hnumbered.le hmax)).append hnumbered
  conn := by
    rcases h'.conn with ⟨io', hio', hclean⟩ | ⟨hnone, hclosed⟩
    · exact .inl ⟨io', hio', (h.clean hconn).append hclean⟩
    · exact .inr ⟨hnone, (h.clean hconn).append_closed hclosed⟩

theorem Did.dropConn (h : Did document a ws link link') : Did document a ws link link'.dropConn :=
  ⟨h.log, h.streams, h.ids, .inr ⟨rfl, h.closed⟩⟩

theorem Did.line (hconn : link.conn = some a) (hheld : a.io.Held maxFrameBytes) {request : Request}
    (hid : request.id = link.nextId) :
    Did document a [.line request true] link (link.advanceId.note a.key (.line request true)) where
  log := rfl
  streams := rfl
  ids := fun hmax => .advance hmax (congrArg (fun i => [i]) hid)
  conn := .inl ⟨a.io, hconn, by simp [What.fatal], hheld, rfl⟩

theorem Did.cut {request : Request} (hid : request.id = link.nextId) :
    Did document a [.line request false] link (link.advanceId.note a.key (.line request false)).dropConn where
  log := rfl
  streams := rfl
  ids := fun hmax => .advance hmax (congrArg (fun i => [i]) hid)
  conn := .inr ⟨rfl, .single List.nil_prefix⟩

theorem Did.giveUp {w : What} (hids : Emucap.Live.Tcp.ids [w] = []) (hdelivered : w.delivered = none)
    (hlog : link'.log = link.log ++ [⟨a.key, w⟩]) (hstreams : link'.streams = link.streams)
    (hnext : link'.nextId = link.nextId) (hconn : link'.conn = none) : Did document a [w] link link' where
  log := hlog
  streams := hstreams
  ids := fun _ => by
    rw [hnext]
    exact .quiet _ hids
  conn := by
    refine .inr ⟨hconn, .single ?_⟩
    rw [hdelivered]
    exact List.nil_prefix

end

/-! ## The invariant of a link -/

structure Inv (document : String → Line) (link : TcpLink) : Prop where
  keys : ∀ e ∈ link.log, e.key < link.streams.length
  closed : ∀ key stream, link.streams[key]? = some stream → Closed document (on key link.log) stream
  live : ∀ a, link.conn = some a → ∃ stream, link.streams[a.key]? = some stream ∧
    Clean document (on a.key link.log) stream a.io
  ids : link.nextId < maxId → (written link.log).Pairwise (· < ·) ∧ ∀ i ∈ written link.log, i < link.nextId

section
variable {document : String → Line} {a : Attachment} {ws : List What} {link link' : TcpLink}

theorem Inv.new : Inv document .new where
  keys := by simp [TcpLink.new]
  closed := by simp [TcpLink.new]
  live := by simp [TcpLink.new]
  ids := by simp [TcpLink.new, written, Tcp.ids]

theorem Inv.dropConn (h : Inv document link) : Inv document link.dropConn :=
  ⟨h.keys, h.closed, by simp [TcpLink.dropConn], h.ids⟩

theorem Inv.adopt (h : Inv document link) (arrivals : List Arrival) : Inv document (link.adopt arrivals) := by
  have hnone : on link.streams.length link.log = [] := by
    rw [on, List.map_eq_nil_iff, List.filter_eq_nil_iff]
    intro e he
    have hlt := h.keys e he
    simp only [decide_eq_true_eq]
    omega
  have hfresh : Clean document [] (arrivals.flatMap Arrival.payload) ⟨⟨[], arrivals⟩, []⟩ :=
    @Clean.nil document ⟨⟨[], arrivals⟩, []⟩ (.of_pending_nil rfl)
  refine ⟨?_, ?_, ?_, h.ids⟩
  · intro e he
    have hlt := h.keys e he
    simp only [TcpLink.adopt, List.length_append, List.length_singleton]
    omega
  · intro key stream hstream
    change (link.streams ++ [arrivals.flatMap Arrival.payload])[key]? = some stream at hstream
    change Closed document (on key link.log) stream
    rcases Nat.lt_or_ge key link.streams.length with hlt | hge
    · rw [List.getElem?_append_left hlt] at hstream
      exact h.closed key stream hstream
    · rw [List.getElem?_append_right hge, List.getElem?_singleton] at hstream
      split_ifs at hstream with hzero
      obtain rfl := Option.some.inj hstream
      obtain rfl : key = link.streams.length := by omega
      rw [hnone]
      exact hfresh.closed
  · intro b hb
    obtain rfl := Option.some.inj hb
    refine ⟨arrivals.flatMap Arrival.payload, List.getElem?_concat_length, ?_⟩
    change Clean document (on link.streams.length link.log) _ _
    rw [hnone]
    exact hfresh

theorem Inv.did (h : Inv document link) (hconn : link.conn = some a) (hdid : Did document a ws link link') :
    Inv document link' := by
  obtain ⟨stream, hstream, hclean⟩ := h.live a hconn
  have hown : on a.key link'.log = on a.key link.log ++ ws := by rw [hdid.log, on_append, on_own]
  refine ⟨?_, ?_, ?_, ?_⟩
  · intro e he
    rw [hdid.log] at he
    rw [hdid.streams]
    rcases List.mem_append.mp he with he | he
    · exact h.keys e he
    · obtain ⟨w, -, rfl⟩ := List.mem_map.mp he
      exact (List.getElem?_eq_some_iff.mp hstream).1
  · intro key stream' hstream'
    rw [hdid.streams] at hstream'
    by_cases hkey : key = a.key
    · subst hkey
      rw [hstream] at hstream'
      obtain rfl := Option.some.inj hstream'
      rw [hown]
      exact hclean.append_closed hdid.closed
    · rw [hdid.log, on_append, on_other hkey, List.append_nil]
      exact h.closed key stream' hstream'
  · intro b hb
    rcases hdid.conn with ⟨io, hio, hkept⟩ | ⟨hnone, -⟩
    · rw [hio] at hb
      obtain rfl := Option.some.inj hb
      rw [hdid.streams, hown]
      exact ⟨stream, hstream, hclean.append hkept⟩
    · rw [hnone] at hb
      cases hb
  · intro hmax
    have hnumbered := hdid.ids hmax
    obtain ⟨hsorted, hbound⟩ := h.ids (Nat.lt_of_le_of_lt hnumbered.le hmax)
    rw [hdid.log, written_append]
    refine ⟨List.pairwise_append.mpr ⟨hsorted, hnumbered.sorted, fun i hi j hj => ?_⟩, fun i hi => ?_⟩
    · exact Nat.lt_of_lt_of_le (hbound i hi) (hnumbered.bounds j hj).1
    · rcases List.mem_append.mp hi with hi | hi
      · exact Nat.lt_of_lt_of_le (hbound i hi) hnumbered.le
      · exact (hnumbered.bounds i hi).2

end

/-! ## What a call tells -/

/-- The answer of an ordinary call, from the frames that it read. -/
structure Tells (id : ℕ) (frames : List Response) (shown : List WorkingProgress) (rejection : Option LinkError)
    (result : Option (Except LinkError Json)) : Prop where
  ok : ∀ v, result = some (.ok v) →
    ∃ r ∈ frames, r.id = id ∧ r.ok = true ∧ r.isWorking = false ∧ v = r.result.getD .null
  emulator : ∀ kind message, result = some (.error (.emulator kind message)) →
    (∃ r ∈ frames, r.id = id ∧ r.ok = false ∧ r.error = some ⟨kind, message⟩) ∨
      rejection = some (.emulator kind message)
  shown : ∀ notice ∈ shown, ∃ r ∈ frames, r.id = id ∧ r.isWorking = true ∧
    WorkingProgress.parse (r.result.getD .null) = .ok notice

def Plain (e : LinkError) : Prop := ∀ kind message, e ≠ .emulator kind message

theorem ioToLink_plain (e : SocketError) : Plain (ioToLink e) := by
  intro kind message h
  cases e <;> cases h

theorem writeError_plain (e : SocketError) : Plain (writeError e) := by
  intro kind message h
  cases e <;> cases h

theorem frameError_plain (e : ReadError) : Plain (frameError e) := by
  intro kind message h
  unfold frameError at h
  split at h <;> cases h

section
variable {id : ℕ} {frames frames' : List Response} {shown shown' : List WorkingProgress} {rejection : Option LinkError}
  {result : Option (Except LinkError Json)}

theorem Tells.quiet (id : ℕ) (frames : List Response) (rejection : Option LinkError) :
    Tells id frames [] rejection none :=
  ⟨nofun, nofun, nofun⟩

theorem Tells.plain {e : LinkError} (h : Plain e) (id : ℕ) (frames : List Response) (rejection : Option LinkError) :
    Tells id frames [] rejection (some (.error e)) := by
  refine ⟨nofun, fun kind message he => ?_, nofun⟩
  cases he
  exact absurd rfl (h kind message)

theorem Tells.append (h : Tells id frames shown none none) (h' : Tells id frames' shown' rejection result) :
    Tells id (frames ++ frames') (shown ++ shown') rejection result where
  ok := by
    intro v hv
    obtain ⟨r, hr, hown⟩ := h'.ok v hv
    exact ⟨r, List.mem_append_right _ hr, hown⟩
  emulator := by
    intro kind message he
    rcases h'.emulator kind message he with ⟨r, hr, hown⟩ | hrejection
    · exact .inl ⟨r, List.mem_append_right _ hr, hown⟩
    · exact .inr hrejection
  shown := by
    intro notice hnotice
    rcases List.mem_append.mp hnotice with hnotice | hnotice
    · obtain ⟨r, hr, hown⟩ := h.shown notice hnotice
      exact ⟨r, List.mem_append_left _ hr, hown⟩
    · obtain ⟨r, hr, hown⟩ := h'.shown notice hnotice
      exact ⟨r, List.mem_append_right _ hr, hown⟩

theorem Tells.failed {e : LinkError} (h : Tells id frames shown rejection result) (he : Plain e) :
    Tells id frames shown rejection (some (.error e)) := by
  refine ⟨nofun, fun kind message heq => ?_, h.shown⟩
  cases heq
  exact absurd rfl (he kind message)

end

/-! ## One pass of an ordinary call -/

def PassNext.result : PassNext → Option (Except LinkError Json)
  | .again _ _ => none
  | .finished result => some result

/-- What a part of a pass did on the connection `a`: the frames that it read itself, and what it told from `frames`. -/
structure PassSpec (document : String → Line) (id : ℕ) (a : Attachment) (link : TcpLink) (read frames : List Response)
    (out : PassOutcome) : Prop where
  did : ∃ ws, Did document a ws link out.link ∧ ws.filterMap (What.response document) = read
  goesOn : ∀ mismatch abortSent, out.next = .again mismatch abortSent → ∃ io, out.link.conn = some ⟨a.key, io⟩
  tells : Tells id frames out.shown out.rejection out.next.result
  rejected : ∀ e, out.rejection = some e → out.link.conn = none ∧ out.next = .finished (.error e)

section
variable {document : String → Line} {utf8Error : List UInt8 → String} {id : ℕ} {a : Attachment} {link link' : TcpLink}
  {ws : List What} {read frames : List Response} {out : PassOutcome} {c : BoundedCall} {p : Pass} {mismatch : ℕ}
  {abortSent : Bool}

theorem PassSpec.after {io : Conn} (hdid : Did document a ws link link') (hconn : link'.conn = some ⟨a.key, io⟩)
    (h : PassSpec document id ⟨a.key, io⟩ link' read frames out) :
    PassSpec document id a link (ws.filterMap (What.response document) ++ read) frames out where
  did := by
    obtain ⟨ws', hdid', hread⟩ := h.did
    refine ⟨ws ++ ws', hdid.append hconn hdid', ?_⟩
    rw [List.filterMap_append, hread]
  goesOn := h.goesOn
  tells := h.tells
  rejected := h.rejected

theorem PassSpec.ends {e : LinkError} (hdid : Did document a ws link link') (he : Plain e) :
    PassSpec document id a link (ws.filterMap (What.response document)) frames
      (.quiet (.finished (.error e)) link') :=
  ⟨⟨ws, hdid, rfl⟩, nofun, .plain he _ _ _, nofun⟩

theorem PassSpec.again {io : Conn} (hdid : Did document a ws link link') (hconn : link'.conn = some ⟨a.key, io⟩) :
    PassSpec document id a link (ws.filterMap (What.response document)) frames
      (.quiet (.again mismatch abortSent) link') :=
  ⟨⟨ws, hdid, rfl⟩, fun _ _ _ => ⟨io, hconn⟩, .quiet _ _ _, nofun⟩

theorem cancelActive_spec (hconn : link.conn = some a) (hheld : a.io.Held maxFrameBytes) :
    PassSpec document id a link [] frames
      (.quiet (cancelActive c p mismatch a.key link).1 (cancelActive c p mismatch a.key link).2) := by
  unfold cancelActive
  cases c.abort with
  | none => exact .ends (Did.refl hconn hheld).dropConn nofun
  | some abort =>
    dsimp only
    cases p.abortWrite with
    | error e => exact .ends (.cut rfl) (writeError_plain e)
    | ok => exact .again (.line hconn hheld rfl) hconn

theorem rejectNotice_did (c : BoundedCall) (p : Pass) (a : Attachment) (link : TcpLink) :
    ∃ ws, Did document a ws link (rejectNotice c p a.key link) ∧ ws.filterMap (What.response document) = [] ∧
      (rejectNotice c p a.key link).conn = none := by
  unfold rejectNotice
  cases c.abort with
  | none => exact ⟨[.rejected none], .giveUp rfl rfl rfl rfl rfl rfl, rfl, rfl⟩
  | some abort =>
    refine ⟨[.rejected (some (.new link.nextId abort.method abort.params, p.abortWrite.isOk))], ?_, rfl, rfl⟩
    exact ⟨rfl, rfl, fun hmax => .advance hmax rfl, .inr ⟨rfl, .single List.nil_prefix⟩⟩

theorem PassSpec.show {notices : List WorkingProgress} {next : PassNext}
    (h : PassSpec document id a link read frames (.quiet next link'))
    (hshown : ∀ notice ∈ notices, ∃ r ∈ frames, r.id = id ∧ r.isWorking = true ∧
      WorkingProgress.parse (r.result.getD .null) = .ok notice) :
    PassSpec document id a link read frames ⟨next, link', [], notices, none⟩ :=
  ⟨h.did, h.goesOn, ⟨h.tells.ok, h.tells.emulator, hshown⟩, nofun⟩

theorem PassSpec.refused {notices : List WorkingProgress} (e : LinkError)
    (hshown : ∀ notice ∈ notices, ∃ r ∈ frames, r.id = id ∧ r.isWorking = true ∧
      WorkingProgress.parse (r.result.getD .null) = .ok notice) :
    PassSpec document id a link [] frames
      ⟨.finished (.error e), rejectNotice c p a.key link, [], notices, some e⟩ := by
  obtain ⟨ws, hdid, hread, hnone⟩ := @rejectNotice_did document c p a link
  refine ⟨⟨ws, hdid, hread⟩, nofun, ⟨nofun, fun kind message he => .inr ?_, hshown⟩, fun e' he' => ⟨hnone, ?_⟩⟩
  · obtain rfl := Except.error.inj (Option.some.inj he)
    rfl
  · obtain rfl := Option.some.inj he'
    rfl

theorem afterNotice_spec (hconn : link.conn = some a) (hheld : a.io.Held maxFrameBytes)
    {notices : List WorkingProgress}
    (hshown : ∀ notice ∈ notices, ∃ r ∈ frames, r.id = id ∧ r.isWorking = true ∧
      WorkingProgress.parse (r.result.getD .null) = .ok notice) :
    PassSpec document id a link [] frames (afterNotice c p mismatch abortSent a.key link notices) := by
  unfold afterNotice
  split_ifs
  · exact (cancelActive_spec hconn hheld).show hshown
  · have hagain : PassSpec document id a link [] frames (.quiet (.again mismatch abortSent) link) :=
      .again (.refl hconn hheld) hconn
    exact hagain.show hshown

theorem onWorking_spec (hconn : link.conn = some a) (hheld : a.io.Held maxFrameBytes) {r : Response}
    (hid : r.id = c.id) (hworking : r.isWorking = true) :
    PassSpec document c.id a link [] [r]
      (onWorking c p mismatch abortSent a.key link (r.result.getD .null)) := by
  unfold onWorking
  split_ifs
  · cases hparse : WorkingProgress.parse (r.result.getD .null) with
    | error e => exact .refused e nofun
    | ok progress =>
      have hshown : ∀ notice ∈ [progress], ∃ r' ∈ [r], r'.id = c.id ∧ r'.isWorking = true ∧
          WorkingProgress.parse (r'.result.getD .null) = .ok notice := by
        intro notice hnotice
        rw [List.mem_singleton.mp hnotice]
        exact ⟨r, List.mem_singleton_self r, hid, hworking, hparse⟩
      dsimp only
      cases p.observed with
      | error e => exact .refused e hshown
      | ok => exact afterNotice_spec hconn hheld hshown
  · exact afterNotice_spec hconn hheld nofun

theorem onResponse_spec (hconn : link.conn = some a) (hheld : a.io.Held maxFrameBytes) (r : Response) :
    PassSpec document c.id a link [] [r] (onResponse c p mismatch abortSent a.key link r) := by
  have hkept := @Did.refl document a link hconn hheld
  unfold onResponse
  split_ifs with hid hmany hok hworking
  · exact .ends hkept.dropConn nofun
  · exact .again hkept hconn
  · cases herror : r.error with
    | none => exact .ends hkept nofun
    | some error =>
      refine ⟨⟨[], hkept, rfl⟩, nofun, ⟨nofun, fun kind message he => .inl ?_, nofun⟩, nofun⟩
      obtain ⟨rfl, rfl⟩ := LinkError.emulator.inj (Except.error.inj (Option.some.inj he))
      exact ⟨r, List.mem_singleton_self r, by simpa using hid, hok, herror⟩
  · exact onWorking_spec hconn hheld (by simpa using hid) hworking
  · refine ⟨⟨[], hkept, rfl⟩, nofun, ⟨fun v hv => ?_, nofun, nofun⟩, nofun⟩
    obtain rfl := Except.ok.inj (Option.some.inj hv)
    exact ⟨r, List.mem_singleton_self r, by simpa using hid, by simpa using hok, by simpa using hworking, rfl⟩

theorem onTimeout_spec (hconn : link.conn = some a) (hheld : a.io.Held maxFrameBytes) :
    PassSpec document id a link [] frames
      (.quiet (onTimeout c p mismatch abortSent a.key link).1 (onTimeout c p mismatch abortSent a.key link).2) := by
  have hkept := @Did.refl document a link hconn hheld
  unfold onTimeout
  split_ifs
  · exact cancelActive_spec hconn hheld
  · have hdid : Did document a [.abandoned] link
        ({ link with consecutiveTimeouts := 0 }.note a.key .abandoned).dropConn := .giveUp rfl rfl rfl rfl rfl rfl
    exact .ends hdid nofun
  · exact .again hkept hconn
  · have hdid : Did document a [] link { link with consecutiveTimeouts := 0 }.dropConn :=
      ⟨hkept.log, rfl, hkept.ids, .inr ⟨rfl, hkept.closed⟩⟩
    exact .ends hdid nofun
  · have hdid : Did document a [] link { link with consecutiveTimeouts := link.consecutiveTimeouts + 1 } :=
      ⟨hkept.log, rfl, hkept.ids, .inl ⟨a.io, hconn, .nil hheld⟩⟩
    exact .ends hdid nofun

/-! ## The read of a pass -/

theorem clean_timeout {io io' : Conn} (h : io.Step maxFrameBytes io') : Clean document [.read none] io.unread io' :=
  ⟨by simp [What.fatal], h.held, by rw [h.unread]; rfl⟩

theorem clean_frame {io io' : Conn} {text : String} {r : Response} (hpending : io'.pending = [])
    (hframing : framing maxFrameBytes io.unread = .frame text :: framing maxFrameBytes io'.unread)
    (hparse : Response.parse (document text) = some r) :
    Clean document [.read (some (.frame text))] io.unread io' :=
  ⟨by simp [What.fatal, hparse], .of_pending_nil hpending, hframing⟩

theorem closed_read {io : Conn} {d : Delivery} {rest : List Delivery}
    (hframing : framing maxFrameBytes io.unread = d :: rest) : Closed document [.read (some d)] io.unread := by
  refine .single ?_
  rw [hframing]
  exact ⟨rest, rfl⟩

theorem Did.reads {d : Option Delivery} {count : ℕ} {io : Conn} (h : Clean document [.read d] a.io.unread io) :
    Did document a [.read d] link
      { { link with conn := some ⟨a.key, io⟩ }.note a.key (.read d) with consecutiveTimeouts := count } :=
  ⟨rfl, rfl, fun _ => .quiet _ rfl, .inl ⟨io, rfl, h⟩⟩

theorem Did.readClosed {d : Delivery} {count : ℕ} {io : Conn} {rest : List Delivery}
    (h : framing maxFrameBytes a.io.unread = d :: rest) :
    Did document a [.read (some d)] link
      { { link with conn := some ⟨a.key, io⟩ }.note a.key (.read (some d)) with
        consecutiveTimeouts := count }.dropConn :=
  ⟨rfl, rfl, fun _ => .quiet _ rfl, .inr ⟨rfl, closed_read h⟩⟩

theorem delivery_none {result : ReadResult} (h : delivery result = none) : ∃ e, result = .error e := by
  rcases result with e | text
  · exact ⟨e, rfl⟩
  · cases text <;> cases h

theorem delivery_last {result : ReadResult} {d : Delivery} (h : delivery result = some d)
    (hnot : ∀ text, d ≠ .frame text) : result = .ok none ∧ d = .ended ∨ ∃ e, result = .error e := by
  rcases result with e | _ | text
  · exact .inr ⟨e, rfl⟩
  · exact .inl ⟨rfl, (Option.some.inj h).symm⟩
  · exact absurd (Option.some.inj h).symm (hnot text)

/-- What a whole pass did: all that it told came from the frames that it read. -/
def PassOutcome.Meets (document : String → Line) (id : ℕ) (a : Attachment) (link : TcpLink) (out : PassOutcome) : Prop :=
  PassSpec document id a link out.frames out.frames out

theorem pass_spec (hconn : link.conn = some a) (hheld : a.io.Held maxFrameBytes) :
    (pass document utf8Error c mismatch abortSent p link).Meets document c.id a link := by
  have habandoned : Did document a [.abandoned] link
      ({ link with consecutiveTimeouts := 0 }.note a.key .abandoned).dropConn := .giveUp rfl rfl rfl rfl rfl rfl
  have hlost : Did document a [.lost] link (link.note a.key .lost).dropConn := .giveUp rfl rfl rfl rfl rfl rfl
  unfold pass
  rw [hconn]
  dsimp only
  by_cases hexpired : p.expired = true
  · rw [if_pos hexpired, ← hconn]
    split_ifs
    · exact .ends habandoned fun _ _ h => by cases h
    · exact .ends habandoned fun _ _ h => by cases h
  rw [if_neg hexpired]
  cases p.clamp with
  | error e => exact .ends (.refl hconn hheld) (ioToLink_plain e)
  | ok =>
    cases p.reset with
    | some e => exact .ends hlost (ioToLink_plain e)
    | none =>
      have hread := @ReadCall.read_spec utf8Error maxFrameBytes a.io .frame hheld
      unfold readOn
      rcases hresult : ReadCall.read utf8Error maxFrameBytes .frame a.io with ⟨result, io⟩
      rw [hresult] at hread
      cases hread with
      | again hretry hstep =>
        obtain ⟨e, rfl⟩ := delivery_none hretry
        simp only [hretry]
        have hdid := @Did.reads document a link none link.consecutiveTimeouts io (clean_timeout hstep)
        exact .after hdid rfl (onTimeout_spec rfl hstep.held)
      | @frame text _ hpending _ _ hframing =>
        simp only [delivery]
        cases hparse : Response.parse (document text) with
        | none =>
          have hdid := @Did.readClosed document a link (.frame text) 0 io _ hframing
          have hplain : Plain (.protocol "malformed response") := fun _ _ h => by cases h
          have hends := @PassSpec.ends document c.id a link _ _ [] _ hdid hplain
          simp only [List.filterMap_cons, List.filterMap_nil, What.response, hparse] at hends
          exact hends
        | some r =>
          have hclean := @clean_frame document a.io io text r hpending hframing hparse
          have hdid := @Did.reads document a link _ 0 io hclean
          have hrest := PassSpec.after hdid rfl
            (@onResponse_spec document ⟨a.key, io⟩ _ c p mismatch abortSent rfl hclean.held r)
          simp only [List.filterMap_cons, List.filterMap_nil, What.response, hparse, List.append_nil] at hrest
          exact ⟨hrest.did, hrest.goesOn, hrest.tells, hrest.rejected⟩
      | @last _ _ d hlast hnot hframing =>
        have hdid := @Did.readClosed document a link d link.consecutiveTimeouts io _ hframing
        have hnone : [What.read (some d)].filterMap (What.response document) = [] := by
          cases d with
          | frame text => exact absurd rfl (hnot text)
          | ended => rfl
          | failed kind => rfl
        rcases delivery_last hlast hnot with ⟨rfl, rfl⟩ | ⟨e, rfl⟩
        · exact .ends hdid fun _ _ h => by cases h
        · simp only [hlast]
          have hends := @PassSpec.ends document c.id a link _ _ [] _ hdid (frameError_plain e)
          rw [hnone] at hends
          exact hends

end

/-! ## An ordinary call -/

/-- What a call, or the rest of one, did on the connection `a`. -/
structure LoopSpec (document : String → Line) (id : ℕ) (a : Attachment) (link : TcpLink) (answered : Answered) :
    Prop where
  did : ∃ ws, Did document a ws link answered.link ∧ ws.filterMap (What.response document) = answered.frames
  tells : Tells id answered.frames answered.shown answered.rejection answered.result
  rejected : ∀ e, answered.rejection = some e → answered.link.conn = none

section
variable {document : String → Line} {utf8Error : List UInt8 → String}

theorem boundedLoop_spec (c : BoundedCall) (passes : List Pass) : ∀ (mismatch : ℕ) (abortSent : Bool) (a : Attachment)
    (link : TcpLink), link.conn = some a → a.io.Held maxFrameBytes →
    LoopSpec document c.id a link (boundedLoop document utf8Error c mismatch abortSent passes link) := by
  induction passes with
  | nil =>
    intro mismatch abortSent a link hconn hheld
    exact ⟨⟨[], .refl hconn hheld, rfl⟩, .quiet _ _ _, nofun⟩
  | cons p passes ih =>
    intro mismatch abortSent a link hconn hheld
    have hpass := @pass_spec document utf8Error a link c p mismatch abortSent hconn hheld
    rw [boundedLoop]
    generalize pass document utf8Error c mismatch abortSent p link = out at hpass
    obtain ⟨ws, hdid, hframes⟩ := hpass.did
    have htells := hpass.tells
    rcases hnext : out.next with ⟨mismatch', abortSent'⟩ | result
    · obtain ⟨io, hio⟩ := hpass.goesOn _ _ hnext
      have hrest := ih mismatch' abortSent' ⟨a.key, io⟩ out.link hio (hdid.clean hio).held
      obtain ⟨ws', hdid', hframes'⟩ := hrest.did
      have hnone : out.rejection = none := by
        rw [Option.eq_none_iff_forall_ne_some]
        intro e he
        have hfinished := (hpass.rejected e he).2
        rw [hnext] at hfinished
        cases hfinished
      rw [hnext, hnone] at htells
      refine ⟨⟨ws ++ ws', hdid.append hio hdid', ?_⟩, htells.append hrest.tells, hrest.rejected⟩
      rw [List.filterMap_append, hframes, hframes']
    · rw [hnext] at htells
      exact ⟨⟨ws, hdid, hframes⟩, htells, fun e he => (hpass.rejected e he).1⟩

/-- What a call did: the frames that it read, after its own line if there are any. -/
structure Called (document : String → Line) (request : Request) (a : Attachment) (link : TcpLink)
    (answered : Answered) : Prop where
  did : ∃ ws, Did document a ws link answered.link ∧ ws.filterMap (What.response document) = answered.frames ∧
    (answered.frames ≠ [] → What.line request true ∈ ws)
  rejected : ∀ e, answered.rejection = some e → answered.link.conn = none

theorem rawCallBounded_spec {a : Attachment} {link : TcpLink} (hconn : link.conn = some a)
    (hheld : a.io.Held maxFrameBytes) (method : String) (params : Json) (observed : Bool)
    (control : Option (Option AbortRequest)) (script : BoundedScript) :
    let answered := rawCallBounded document utf8Error method params observed control script link
    Called document (.new link.nextId method params) a link answered ∧
      Tells link.nextId answered.frames answered.shown answered.rejection answered.result := by
  unfold rawCallBounded
  rw [hconn]
  dsimp only
  cases script.clamp with
  | error e => exact ⟨⟨⟨[], .refl hconn hheld, rfl, fun h => absurd rfl h⟩, nofun⟩, .plain (ioToLink_plain e) _ _ _⟩
  | ok =>
    dsimp only
    cases script.write with
    | error e => exact ⟨⟨⟨_, .cut rfl, rfl, fun h => absurd rfl h⟩, nofun⟩, .plain (writeError_plain e) _ _ _⟩
    | ok =>
      let sent := link.advanceId.note a.key (.line (.new link.nextId method params) true)
      have hline : Did document a [.line (.new link.nextId method params) true] link sent := .line hconn hheld rfl
      have hloop := @boundedLoop_spec document utf8Error ⟨link.nextId, observed, control⟩ script.passes 0 false a sent
        hconn hheld
      obtain ⟨ws, hdid, hframes⟩ := hloop.did
      exact ⟨⟨⟨_, hline.append hconn hdid, hframes, fun _ => List.mem_cons_self⟩, hloop.rejected⟩, hloop.tells⟩

theorem ordinaryCall_spec {a : Attachment} {link : TcpLink} (hconn : link.conn = some a)
    (hheld : a.io.Held maxFrameBytes) (method : String) (params : Json) (observed : Bool)
    (control : Option (Option AbortRequest)) (script : BoundedScript) :
    let answered := ordinaryCall document utf8Error method params observed control script link
    Called document (.new link.nextId method params) a link answered ∧
      Tells link.nextId answered.frames answered.shown answered.rejection answered.result := by
  obtain ⟨hcalled, htells⟩ := @rawCallBounded_spec document utf8Error a link hconn hheld method params observed control
    script
  unfold ordinaryCall
  dsimp only
  split
  · rename_i e _ _ _
    obtain ⟨ws, hdid, hframes⟩ := hcalled.did
    exact ⟨⟨⟨ws, hdid.dropConn, hframes⟩, fun _ _ => rfl⟩, htells.failed (ioToLink_plain e)⟩
  · exact ⟨hcalled, htells⟩

end

/-! ## A temporal call -/

def lines (events : List Temporal.Event) : List Request :=
  events.filterMap fun
    | .request request => some request
    | .abort request => some request
    | .response _ => none

theorem lines_append (events events' : List Temporal.Event) : lines (events ++ events') = lines events ++ lines events' :=
  List.filterMap_append

theorem responses_append (events events' : List Temporal.Event) :
    responses (events ++ events') = responses events ++ responses events' :=
  List.filterMap_append

theorem responses_map (rs : List Response) : responses (rs.map .response) = rs := by
  rw [responses, List.filterMap_map]
  exact List.filterMap_some

theorem lines_map (rs : List Response) : lines (rs.map .response) = [] := by
  rw [lines, List.filterMap_map, List.filterMap_eq_nil_iff]
  exact fun _ _ => rfl

section
variable {document : String → Line} {utf8Error : List UInt8 → String} {c : Temporal.Call} {s : Temporal.Loop}
  {m : Moment} {io : Conn}

theorem stop_poll (poll poll' : Temporal.Poll) :
    Temporal.stop c s (m.turn poll) = Temporal.stop c s (m.turn poll') := rfl

theorem stop_line (poll : Temporal.Poll) :
    (Temporal.stop c s (m.turn poll)).2 = [] ∨
      (Temporal.stop c s (m.turn poll)).2 = [.abort c.abort] ∧
        ((Temporal.stop c s (m.turn poll)).1.isOk = m.abortWrite.isOk) := by
  unfold Temporal.stop
  split
  · split_ifs
    · exact .inl rfl
    · split
      · exact .inl rfl
      · right
        have hwrite : (m.turn poll).abortWrite = m.abortWrite := rfl
        rw [hwrite]
        cases m.abortWrite with
        | error reason => exact ⟨rfl, rfl⟩
        | ok => exact ⟨rfl, rfl⟩
  · exact .inl rfl

theorem turn_reaches (poll : Temporal.Poll) :
    (reaches c s m = true ∧ ∃ s', (Temporal.stop c s (m.turn poll)).1 = .ok s' ∧
      Temporal.turn c s (m.turn poll) = ((Temporal.read c s' poll).1,
        (Temporal.stop c s (m.turn poll)).2 ++ (Temporal.read c s' poll).2)) ∨
    reaches c s m = false ∧ ((∃ result, Temporal.turn c s (m.turn poll) = (.finished result, [])) ∨
      ∃ e, (Temporal.stop c s (m.turn poll)).1 = .error e ∧
        Temporal.turn c s (m.turn poll) = (.finished (.error e), (Temporal.stop c s (m.turn poll)).2)) := by
  have hpoll := @stop_poll c s m poll .pending
  unfold reaches Temporal.turn
  rw [← hpoll]
  have hnow : (m.turn poll).now = m.now := rfl
  have hclamp : (m.turn poll).clamp = m.clamp := rfl
  rw [hnow, hclamp]
  by_cases hlate : c.deadline s ≤ m.now
  · right
    rw [if_pos hlate]
    exact ⟨by simp [hlate], .inl ⟨_, rfl⟩⟩
  rw [if_neg hlate]
  cases m.clamp with
  | error reason => exact .inr ⟨by simp [Except.isOk, Except.toBool], .inl ⟨_, rfl⟩⟩
  | ok =>
    cases s.drained with
    | some r => exact .inr ⟨by simp, .inl ⟨_, rfl⟩⟩
    | none =>
      rcases hstop : Temporal.stop c s (m.turn poll) with ⟨e | s', events⟩
      · exact .inr ⟨by simp [Except.isOk, Except.toBool], .inr ⟨e, rfl, rfl⟩⟩
      · exact .inl ⟨by simp [hlate, Except.isOk, Except.toBool], s', rfl, rfl⟩

/-- What happened in one pass or more, as the events tell it. -/
structure Happened (document : String → Line) (io : Conn) (ws : List What) (events : List Temporal.Event)
    (failed : Prop) (io' : Conn) : Prop where
  lines : ws.flatMap What.requests = lines events
  responses : ws.filterMap (What.response document) = responses events
  closed : Closed document ws io.unread
  clean : ¬ failed → Clean document ws io.unread io'

theorem Happened.append {io io' io'' : Conn} {ws ws' : List What} {events events' : List Temporal.Event}
    {failed failed' : Prop} (h : Happened document io ws events failed io') (hfailed : ¬ failed)
    (h' : Happened document io' ws' events' failed' io'') :
    Happened document io (ws ++ ws') (events ++ events') failed' io'' where
  lines := by rw [List.flatMap_append, h.lines, h'.lines, lines_append]
  responses := by rw [List.filterMap_append, h.responses, h'.responses, responses_append]
  closed := (h.clean hfailed).append_closed h'.closed
  clean := fun hok => (h.clean hfailed).append (h'.clean hok)

theorem Happened.nothing {failed : Prop} (hheld : io.Held maxFrameBytes) : Happened document io [] [] failed io :=
  ⟨rfl, rfl, (Clean.nil hheld).closed, fun _ => .nil hheld⟩

/-- The next pass is not the end of a failed exchange. -/
def Failed (next : Temporal.Next) : Prop := ∃ e, next = .finished (.error e)

theorem abortLines_map (key : ℕ) (whole : Bool) (rs : List Response) : abortLines key whole (rs.map .response) = [] := by
  rw [abortLines, List.filterMap_map, List.filterMap_eq_nil_iff]
  exact fun _ _ => rfl

theorem pollOn_spec (hheld : io.Held maxFrameBytes) (s' : Temporal.Loop) :
    ∃ rs : List Response, (Temporal.read c s' (pollOn document utf8Error m io).1).2 = rs.map .response ∧
      Happened document io [(pollOn document utf8Error m io).2.1] (rs.map .response)
        (Failed (Temporal.read c s' (pollOn document utf8Error m io).1).1) (pollOn document utf8Error m io).2.2 := by
  unfold pollOn
  cases m.reset with
  | some reason =>
    exact ⟨[], rfl, rfl, rfl, .single List.nil_prefix, fun hok => absurd ⟨_, rfl⟩ hok⟩
  | none =>
    have hread := @ReadCall.read_spec utf8Error maxFrameBytes io .chunk hheld
    rcases hresult : ReadCall.read utf8Error maxFrameBytes .chunk io with ⟨result, io'⟩
    rw [hresult] at hread
    cases hread with
    | again hretry hstep =>
      obtain ⟨e, rfl⟩ := delivery_none hretry
      simp only [hretry]
      exact ⟨[], rfl, rfl, rfl, (clean_timeout hstep).closed, fun _ => clean_timeout hstep⟩
    | @frame text _ hpending _ _ hframing =>
      simp only [delivery, Temporal.read]
      cases hparse : Response.parse (document text) with
      | none =>
        refine ⟨[], rfl, rfl, ?_, closed_read hframing, fun hok => absurd ⟨_, rfl⟩ hok⟩
        simp [What.response, hparse, responses]
      | some r =>
        have hclean := @clean_frame document io io' text r hpending hframing hparse
        refine ⟨[r], rfl, rfl, ?_, hclean.closed, fun _ => hclean⟩
        simp [What.response, hparse, responses]
    | @last _ _ d hlast hnot hframing =>
      have hnone : [What.read (some d)].filterMap (What.response document) = [] := by
        cases d with
        | frame text => exact absurd rfl (hnot text)
        | ended => rfl
        | failed kind => rfl
      rcases delivery_last hlast hnot with ⟨rfl, rfl⟩ | ⟨e, rfl⟩
      · exact ⟨[], rfl, rfl, hnone, closed_read hframing, fun hok => absurd ⟨_, rfl⟩ hok⟩
      · simp only [hlast]
        exact ⟨[], rfl, rfl, hnone, closed_read hframing, fun hok => absurd ⟨_, rfl⟩ hok⟩

def passLog (c : Temporal.Call) (key : ℕ) (s : Temporal.Loop) (m : Moment) (events : List Temporal.Event)
    (what : What) : List WireEvent :=
  abortLines key m.abortWrite.isOk events ++ if reaches c s m then [⟨key, what⟩] else []

theorem turn_happened (hheld : io.Held maxFrameBytes) (key : ℕ) :
    ∃ ws, passLog c key s m (Temporal.turn c s (m.turn (pollOn document utf8Error m io).1)).2
          (pollOn document utf8Error m io).2.1 = ws.map (WireEvent.mk key) ∧
      Happened document io ws (Temporal.turn c s (m.turn (pollOn document utf8Error m io).1)).2
        (Failed (Temporal.turn c s (m.turn (pollOn document utf8Error m io).1)).1)
        (if reaches c s m then (pollOn document utf8Error m io).2.2 else io) := by
  unfold passLog
  have hline := @stop_line c s m (pollOn document utf8Error m io).1
  rcases @turn_reaches c s m (pollOn document utf8Error m io).1 with ⟨hreached, s', hok, hturn⟩ |
    ⟨hreached, ⟨result, hturn⟩ | ⟨e, herror, hturn⟩⟩
  · rw [hturn, hreached, if_pos rfl, if_pos rfl]
    obtain ⟨rs, hevents, hread⟩ := @pollOn_spec document utf8Error c m io hheld s'
    dsimp only
    rw [hevents]
    rcases hline with hnone | ⟨habort, hwhole⟩
    · rw [hnone]
      refine ⟨[(pollOn document utf8Error m io).2.1], ?_, hread⟩
      rw [List.nil_append, abortLines_map]
      rfl
    · have hstop : Happened document io [.line c.abort true] [.abort c.abort] False io :=
        ⟨rfl, rfl, (Clean.closed ⟨by simp [What.fatal], hheld, rfl⟩ : Closed document _ _), fun _ =>
          ⟨by simp [What.fatal], hheld, rfl⟩⟩
      rw [hok] at hwhole
      rw [habort, ← hwhole]
      refine ⟨[.line c.abort true, (pollOn document utf8Error m io).2.1], ?_, hstop.append id hread⟩
      rw [abortLines, List.filterMap_append, ← abortLines, ← abortLines, abortLines_map]
      rfl
  · rw [hturn, hreached]
    exact ⟨[], rfl, .nothing hheld⟩
  · rw [hturn, hreached]
    rcases hline with hnone | ⟨habort, hwhole⟩
    · rw [hnone]
      exact ⟨[], rfl, .nothing hheld⟩
    · rw [herror] at hwhole
      rw [habort, ← hwhole]
      exact ⟨[.line c.abort false], rfl, rfl, rfl, .single List.nil_prefix, fun hok => absurd ⟨e, rfl⟩ hok⟩

/-- An exchange on bytes is an exchange with what the bytes were read as. -/
structure Runs (document : String → Line) (key : ℕ) (io : Conn) (log : List WireEvent)
    (exchanged : Option (Except LinkError Temporal.TerminalResponse) × List Temporal.Event) (ws : List What)
    (out : Exchanging) : Prop where
  result : out.result = exchanged.1
  log : out.log = log ++ ws.map (WireEvent.mk key)
  frames : out.frames = responses exchanged.2
  happened : Happened document io ws exchanged.2 (∃ e, out.result = some (.error e)) out.io

theorem exchangeLoop_spec (c : Temporal.Call) (key : ℕ) (ms : List Moment) :
    ∀ (s : Temporal.Loop) (io : Conn) (log : List WireEvent), io.Held maxFrameBytes →
      ∃ turns ws, Runs document key io log (Temporal.loop c s turns) ws
        (exchangeLoop document utf8Error c key s ms io log) := by
  induction ms with
  | nil =>
    intro s io log hheld
    exact ⟨[], [], rfl, by simp [exchangeLoop], rfl, .nothing hheld⟩
  | cons m ms ih =>
    intro s io log hheld
    obtain ⟨ws, hlog, hturn⟩ := @turn_happened document utf8Error c s m io hheld key
    rw [passLog] at hlog
    rw [exchangeLoop]
    dsimp only
    rw [List.append_assoc, hlog]
    generalize hfirst : Temporal.turn c s (m.turn (pollOn document utf8Error m io).1) = first at hturn
    obtain ⟨next, events⟩ := first
    cases next with
    | finished result =>
      refine ⟨[m.turn (pollOn document utf8Error m io).1], ws, ?_⟩
      rw [Temporal.loop, hfirst]
      refine ⟨rfl, rfl, rfl, hturn.lines, hturn.responses, hturn.closed, fun hok => hturn.clean ?_⟩
      rintro ⟨e, he⟩
      exact hok ⟨e, congrArg some (Temporal.Next.finished.inj he)⟩
    | again s' =>
      have hfailed : ¬ Failed (.again s') := by
        rintro ⟨e, he⟩
        cases he
      obtain ⟨turns, ws', hrest⟩ := ih s' _ (log ++ ws.map (WireEvent.mk key)) (hturn.clean hfailed).held
      refine ⟨m.turn (pollOn document utf8Error m io).1 :: turns, ws ++ ws', ?_⟩
      rw [Temporal.loop, hfirst]
      refine ⟨hrest.result, ?_, ?_, hturn.append hfailed hrest.happened⟩
      · dsimp only
        rw [hrest.log, List.map_append, List.append_assoc]
      · dsimp only
        rw [hrest.frames, responses_append]

theorem exchangeInner_spec (request : Request) (abortId : ℕ) (control : ProgressCallControl) (maxHost : ℕ)
    (d : Temporal.Dispatch) (ms : List Moment) {a : Attachment} (log : List WireEvent)
    (hheld : a.io.Held maxFrameBytes) :
    ∃ turns ws, Runs document a.key a.io log (Temporal.exchangeInner request abortId control maxHost d turns) ws
        (exchangeInner document utf8Error request abortId control maxHost d ms a log) ∧
      ((exchangeInner document utf8Error request abortId control maxHost d ms a log).frames ≠ [] →
        What.line request true ∈ ws) := by
  unfold exchangeInner Temporal.exchangeInner
  cases Temporal.accept request abortId control d.cancelled with
  | error e => exact ⟨[], [], ⟨rfl, by simp, rfl, .nothing hheld⟩, fun h => absurd rfl h⟩
  | ok accepted =>
    obtain ⟨stopMs, abort⟩ := accepted
    dsimp only
    split_ifs
    · exact ⟨[], [], ⟨rfl, by simp, rfl, .nothing hheld⟩, fun h => absurd rfl h⟩
    cases d.clamp with
    | error reason => exact ⟨[], [], ⟨rfl, by simp, rfl, .nothing hheld⟩, fun h => absurd rfl h⟩
    | ok =>
      dsimp only
      cases d.write with
      | error reason =>
        refine ⟨[], [.line request false], ⟨rfl, rfl, rfl, rfl, rfl, .single List.nil_prefix, ?_⟩, fun h => absurd rfl h⟩
        exact fun hok => absurd ⟨_, rfl⟩ hok
      | ok =>
        have hclean : Clean document [.line request true] a.io.unread a.io := ⟨by simp [What.fatal], hheld, rfl⟩
        have hline : Happened document a.io [.line request true] [.request request] False a.io :=
          ⟨rfl, rfl, hclean.closed, fun _ => hclean⟩
        obtain ⟨turns, ws, hloop⟩ := @exchangeLoop_spec document utf8Error
          ⟨request, .new abortId abort.method abort.params, stopMs, Temporal.operationDeadline control maxHost d.start⟩
          a.key ms ⟨none, none, none, 0⟩ a.io (log ++ [⟨a.key, .line request true⟩]) hheld
        refine ⟨turns, .line request true :: ws, ⟨hloop.result, ?_, hloop.frames, hline.append id hloop.happened⟩, ?_⟩
        · exact hloop.log.trans (List.append_assoc _ _ _)
        · exact fun _ => List.mem_cons_self

theorem lines_events (c : Temporal.Call) (before : List Response) (aborted : Bool) (after : List Response) :
    lines (c.events before aborted after) = c.request :: if aborted then [c.abort] else [] := by
  rw [Temporal.Call.events, lines_append, ← List.singleton_append, lines_append, lines_map]
  cases aborted with
  | false => rfl
  | true =>
    have habort : lines (.abort c.abort :: after.map .response) = c.abort :: lines (after.map .response) := rfl
    rw [if_pos rfl, if_pos rfl, habort, lines_map]
    rfl

theorem responses_events (c : Temporal.Call) {before after : List Response} {aborted : Bool}
    (hquiet : aborted = false → after = []) : responses (c.events before aborted after) = before ++ after := by
  rw [Temporal.Call.events, responses_append, ← List.singleton_append, responses_append, responses_map]
  cases aborted with
  | false =>
    rw [hquiet rfl]
    rfl
  | true =>
    have habort : responses (.abort c.abort :: after.map .response) = responses (after.map .response) := rfl
    rw [if_pos rfl, habort, responses_map]
    rfl

structure TellsTemporal (id : ℕ) (answered : Answered) : Prop where
  ok : ∀ v, answered.result = some (.ok v) →
    ∃ r ∈ answered.frames, r.id = id ∧ r.ok = true ∧ r.isWorking = false ∧ v = r.result.getD .null
  emulator : ∀ kind message, answered.result = some (.error (.emulator kind message)) →
    (∃ r ∈ answered.frames, r.id = id ∧ r.ok = false ∧ r.error = some ⟨kind, message⟩) ∨
      kind = "temporal_unverified" ∧ answered.link.conn = none
  shown : answered.shown = []

theorem TellsTemporal.plain {id : ℕ} {e : LinkError} (h : Plain e) (link : TcpLink) :
    TellsTemporal id (.failed e link) := by
  refine ⟨nofun, fun kind message he => ?_, rfl⟩
  cases he
  exact absurd rfl (h kind message)

theorem TellsTemporal.outer {id : ℕ} {e : LinkError} {link : TcpLink} {frames : List Response}
    (h : Temporal.Outer e ∨ e = .cancelled) (hconn : link.conn = none) :
    TellsTemporal id ⟨some (.error e), link, frames, [], none⟩ := by
  refine ⟨nofun, fun kind message he => .inr ?_, rfl⟩
  obtain rfl := Except.error.inj (Option.some.inj he)
  rcases h with (⟨message', hprotocol⟩ | ⟨reason, hunverified⟩) | hcancelled
  · cases hprotocol
  · exact ⟨(LinkError.emulator.inj hunverified).1, hconn⟩
  · cases hcancelled

theorem TellsTemporal.drained {c : Temporal.Call} {terminal : Temporal.TerminalResponse} {before after : List Response}
    {aborted : Bool} (h : Temporal.Exchanged c (some (.ok terminal)) before aborted after) (link : TcpLink) :
    TellsTemporal c.request.id ⟨some terminal.result, link, before ++ after, [], none⟩ := by
  obtain ⟨r, hr, hfinish⟩ := h.terminal terminal rfl
  have hmem : r ∈ (before ++ after).filter c.isTerminal := by
    rw [hr]
    exact List.mem_singleton_self r
  obtain ⟨hread, hterm⟩ := List.mem_filter.mp hmem
  simp only [Temporal.Call.isTerminal, decide_eq_true_eq] at hterm
  refine ⟨fun v hv => ?_, fun kind message he => .inl ?_, rfl⟩
  · obtain ⟨hok, hvalue⟩ := Temporal.finish_value hfinish (Option.some.inj hv)
    exact ⟨r, hread, hterm.1, hok, hterm.2, hvalue⟩
  · obtain ⟨error, hok, herror, heq⟩ := Temporal.finish_result hfinish (Option.some.inj he)
    obtain ⟨rfl, rfl⟩ := LinkError.emulator.inj heq
    exact ⟨r, hread, hterm.1, hok, herror⟩

theorem numbered_lines {id : ℕ} {ws : List What} {request : Request} {aborts : List Request} {aborted : Bool}
    {abort : Request} (hws : ws.flatMap What.requests = aborts) (hid : request.id = id) (habort : abort.id = id + 1)
    (haborts : aborts = [] ∨ aborts = request :: if aborted then [abort] else []) : Numbered id ws (id + 2) := by
  have hids : ids ws = aborts.map Request.id := by rw [ids, hws]
  refine ⟨Nat.le_add_right _ _, ?_, ?_⟩
  · rw [hids]
    rcases haborts with rfl | rfl
    · exact List.Pairwise.nil
    · cases aborted <;> simp [hid, habort]
  · rw [hids]
    rcases haborts with rfl | rfl
    · simp
    · cases aborted <;> simp [hid, habort]

theorem temporalCall_spec {a : Attachment} {link : TcpLink} (hconn : link.conn = some a)
    (hheld : a.io.Held maxFrameBytes) (method : String) (params : Json) (control : ProgressCallControl) (maxHost : ℕ)
    (script : TemporalScript) :
    Called document (.new link.nextId method params) a link
        (temporalCall document utf8Error method params control maxHost script link) ∧
      TellsTemporal link.nextId (temporalCall document utf8Error method params control maxHost script link) := by
  unfold temporalCall
  have hexhausted : Plain (.protocol "request ID exhausted") := nofun
  split_ifs
  · exact ⟨⟨⟨[], .refl hconn hheld, rfl, fun h => absurd rfl h⟩, nofun⟩, .plain hexhausted _⟩
  rw [hconn]
  dsimp only
  cases script.capture with
  | error reason =>
    have hnumbered : ∀ n, Numbered n [.abandoned] (n + 2) := fun n =>
      ⟨Nat.le_add_right _ _, List.Pairwise.nil, fun i hi => by cases hi⟩
    exact ⟨⟨⟨[.abandoned], ⟨rfl, rfl, fun _ => hnumbered _, .inr ⟨rfl, .single List.nil_prefix⟩⟩, rfl,
      fun h => absurd rfl h⟩, nofun⟩, .outer (.inl (Temporal.outer_unverified _)) rfl⟩
  | ok =>
    dsimp only
    obtain ⟨turns, ws, hruns, hown⟩ := @exchangeInner_spec document utf8Error (.new link.nextId method params)
      (link.nextId + 1) control maxHost script.dispatch script.moments a link.log hheld
    generalize exchangeInner document utf8Error (.new link.nextId method params) (link.nextId + 1) control maxHost
      script.dispatch script.moments a link.log = out at hruns hown
    have hdrains := Temporal.exchange_drains (.new link.nextId method params) (link.nextId + 1) control maxHost
      script.dispatch turns
    have houter := @Temporal.exchangeInner_outer (.new link.nextId method params) (link.nextId + 1) control maxHost
      script.dispatch turns
    generalize Temporal.exchangeInner (.new link.nextId method params) (link.nextId + 1) control maxHost
      script.dispatch turns = exchanged at hruns hdrains houter
    have hnumbered : Numbered link.nextId ws (link.nextId + 2) := by
      rcases hdrains with ⟨-, hnone⟩ | ⟨c, hrequest, habort, -, before, aborted, after, hevents, -⟩
      · refine @numbered_lines _ _ (.new link.nextId method params) _ true (.new (link.nextId + 1) method params)
          hruns.happened.lines rfl rfl (.inl ?_)
        rw [hnone]
        rfl
      · refine @numbered_lines _ _ c.request _ aborted c.abort hruns.happened.lines ?_ habort (.inr ?_)
        · rw [hrequest]
          rfl
        · rw [hevents, lines_events]
    have hframes : ws.filterMap (What.response document) = out.frames := by rw [hruns.frames, hruns.happened.responses]
    let after : TcpLink := { link with nextId := link.nextId + 2, conn := some ⟨a.key, out.io⟩, log := out.log }
    have habandoned : Did document a (ws ++ [.abandoned]) link (after.note a.key .abandoned).dropConn := by
      refine ⟨?_, rfl, fun _ => hnumbered.append (.quiet _ rfl), .inr ⟨rfl, hruns.happened.closed.abandon⟩⟩
      change out.log ++ [⟨a.key, .abandoned⟩] = _
      rw [hruns.log, List.map_append, List.append_assoc]
      rfl
    have hdropped : ∀ result, Called document (.new link.nextId method params) a link
        ⟨result, (after.note a.key .abandoned).dropConn, out.frames, [], none⟩ := by
      intro result
      refine ⟨⟨_, habandoned, ?_, fun h => List.mem_append_left _ (hown h)⟩, nofun⟩
      rw [List.filterMap_append, hframes]
      exact List.append_nil _
    have hkept : (∀ e, out.result ≠ some (.error e)) → ∀ result,
        Called document (.new link.nextId method params) a link ⟨result, after, out.frames, [], none⟩ := by
      intro hok result
      have hclean := hruns.happened.clean fun ⟨e, he⟩ => hok e he
      exact ⟨⟨ws, ⟨hruns.log, rfl, fun _ => hnumbered, .inl ⟨out.io, rfl, hclean⟩⟩, hframes, hown⟩, nofun⟩
    rcases hresult : out.result with _ | result
    · exact ⟨hkept (fun e he => by rw [hresult] at he; cases he) none, nofun, nofun, rfl⟩
    cases script.restore with
    | error reason => exact ⟨hdropped _, .outer (.inl (Temporal.outer_unverified _)) rfl⟩
    | ok =>
      rcases result with e | terminal
      · exact ⟨hdropped _, .outer (houter (hruns.result.symm.trans hresult)) rfl⟩
      · refine ⟨hkept (fun e he => by rw [hresult] at he; cases he) _, ?_⟩
        have hok := hruns.result.symm.trans hresult
        rcases hdrains with ⟨⟨e, he⟩, -⟩ | ⟨c, hrequest, -, -, before, aborted, after', hevents, hexchanged, -⟩
        · rw [hok] at he
          cases he
        · rw [hok] at hexchanged
          have htells := TellsTemporal.drained hexchanged after
          rw [hrequest] at htells
          rw [hruns.frames, hevents, responses_events c hexchanged.quiet]
          exact htells

end

/-! ## Runs -/

/-- A call read its frames on its own connection and after its own line, and what it returned and showed comes from
the frames of its own identifier. -/
structure Attributed (document : String → Line) (log : List WireEvent) (call : CallRecord) : Prop where
  read : ∃ earlier during later, log = earlier ++ during ++ later ∧ (∀ e ∈ during, call.key = some e.key) ∧
    during.filterMap (fun e => e.what.response document) = call.answered.frames ∧
    (call.answered.frames ≠ [] → ∃ key, ⟨key, .line call.request true⟩ ∈ during)
  ok : ∀ v, call.answered.result = some (.ok v) →
    ∃ r ∈ call.answered.frames, r.id = call.request.id ∧ r.ok = true ∧ r.isWorking = false ∧ v = r.result.getD .null
  emulator : ∀ kind message, call.answered.result = some (.error (.emulator kind message)) →
    (∃ r ∈ call.answered.frames, r.id = call.request.id ∧ r.ok = false ∧ r.error = some ⟨kind, message⟩) ∨
      (call.temporal = false ∧ call.answered.rejection = some (.emulator kind message) ∨
        call.temporal = true ∧ kind = "temporal_unverified") ∧ call.answered.link.conn = none
  shown : ∀ notice ∈ call.answered.shown, ∃ r ∈ call.answered.frames, r.id = call.request.id ∧ r.isWorking = true ∧
    WorkingProgress.parse (r.result.getD .null) = .ok notice

section
variable {document : String → Line} {utf8Error : List UInt8 → String} {link : TcpLink}

theorem Attributed.extend {log log' : List WireEvent} {call : CallRecord} (h : Attributed document log call)
    (hlog : log <+: log') : Attributed document log' call := by
  obtain ⟨earlier, during, later, hread, hown⟩ := h.read
  obtain ⟨more, rfl⟩ := hlog
  refine ⟨⟨earlier, during, later ++ more, ?_, hown⟩, h.ok, h.emulator, h.shown⟩
  rw [hread, List.append_assoc]

theorem Called.read {request : Request} {a : Attachment} {answered : Answered}
    (h : Called document request a link answered) :
    ∃ earlier during later, answered.link.log = earlier ++ during ++ later ∧ (∀ e ∈ during, some a.key = some e.key) ∧
      during.filterMap (fun e => e.what.response document) = answered.frames ∧
      (answered.frames ≠ [] → ∃ key, ⟨key, .line request true⟩ ∈ during) := by
  obtain ⟨ws, hdid, hframes, hown⟩ := h.did
  refine ⟨link.log, ws.map (WireEvent.mk a.key), [], ?_, ?_, ?_, ?_⟩
  · rw [List.append_nil, hdid.log]
  · intro e he
    obtain ⟨w, -, rfl⟩ := List.mem_map.mp he
    rfl
  · rw [List.filterMap_map, ← hframes]
    rfl
  · intro hne
    exact ⟨a.key, List.mem_map_of_mem (hown hne)⟩

/-- One operation keeps the invariant and adds to the log, and its call is attributed. -/
structure Performed (document : String → Line) (link : TcpLink) (out : TcpLink × List CallRecord) : Prop where
  inv : Inv document out.1
  log : link.log <+: out.1.log
  calls : ∀ call ∈ out.2, Attributed document out.1.log call

theorem Called.performed (hinv : Inv document link) {request : Request} {a : Attachment} {answered : Answered}
    (hconn : link.conn = some a) (h : Called document request a link answered) {call : CallRecord}
    (hcall : Attributed document answered.link.log call) : Performed document link (answered.link, [call]) := by
  obtain ⟨ws, hdid, -⟩ := h.did
  refine ⟨hinv.did hconn hdid, ?_, ?_⟩
  · rw [hdid.log]
    exact List.prefix_append _ _
  · intro call' hcall'
    rw [List.mem_singleton.mp hcall']
    exact hcall

theorem Attributed.failed {e : LinkError} (he : Plain e) (temporal : Bool) (request : Request) (key : Option ℕ)
    (link : TcpLink) : Attributed document link.log ⟨temporal, request, key, .failed e link⟩ := by
  refine ⟨⟨link.log, [], [], by simp, nofun, rfl, fun h => absurd rfl h⟩, nofun, fun kind message heq => ?_, nofun⟩
  cases heq
  exact absurd rfl (he kind message)

theorem Inv.fenced (h : Inv document link) (key : ℕ) :
    (on key link.log).Pairwise fun w w' => w.fatal document = true → w'.io = false := by
  cases hstream : link.streams[key]? with
  | some stream => exact (h.closed key stream hstream).fenced
  | none =>
    have hnone : on key link.log = [] := by
      rw [on, List.map_eq_nil_iff, List.filter_eq_nil_iff]
      intro e he
      have hlt := h.keys e he
      have hle := List.getElem?_eq_none_iff.mp hstream
      simp only [decide_eq_true_eq]
      omega
    rw [hnone]
    exact List.Pairwise.nil

theorem Inv.skip (h : Inv document link) {next : ℕ} (hnext : link.nextId ≤ next) :
    Inv document { link with nextId := next } := by
  refine ⟨h.keys, h.closed, h.live, fun hmax => ?_⟩
  obtain ⟨hsorted, hbound⟩ := h.ids (Nat.lt_of_le_of_lt hnext hmax)
  exact ⟨hsorted, fun i hi => Nat.lt_of_lt_of_le (hbound i hi) hnext⟩

theorem Performed.quiet (hinv : Inv document link') (hlog : link.log <+: link'.log) :
    Performed document link (link', []) :=
  ⟨hinv, hlog, fun _ hcall => absurd hcall List.not_mem_nil⟩

theorem Performed.failed {e : LinkError} (hinv : Inv document link) (he : Plain e) (temporal : Bool) (request : Request)
    (key : Option ℕ) : Performed document link (link, [⟨temporal, request, key, .failed e link⟩]) := by
  refine ⟨hinv, List.prefix_rfl, fun call hcall => ?_⟩
  rw [List.mem_singleton.mp hcall]
  exact .failed he temporal request key link

theorem perform_spec (h : Inv document link) (op : LinkOp) :
    Performed document link (op.perform document utf8Error link) := by
  have hnotConnected : Plain .notConnected := nofun
  cases op with
  | adopt arrivals => exact .quiet (h.adopt arrivals) List.prefix_rfl
  | dropConn => exact .quiet h.dropConn List.prefix_rfl
  | ordinary method params observed control script =>
    rw [LinkOp.perform]
    rcases hconn : link.conn with _ | a
    · have hnone : ordinaryCall document utf8Error method params observed control script link =
          .failed .notConnected link := by
        simp only [ordinaryCall, rawCallBounded, hconn, Answered.failed]
      rw [hnone]
      exact .failed h hnotConnected _ _ _
    · obtain ⟨stream, -, hclean⟩ := h.live a hconn
      obtain ⟨hcalled, htells⟩ := @ordinaryCall_spec document utf8Error a link hconn hclean.held method params observed
        control script
      refine hcalled.performed h hconn ⟨hcalled.read, htells.ok, fun kind message he => ?_, htells.shown⟩
      rcases htells.emulator kind message he with hown | hrejection
      · exact .inl hown
      · exact .inr ⟨.inl ⟨rfl, hrejection⟩, hcalled.rejected _ hrejection⟩
  | temporal method params control maxHost script =>
    rw [LinkOp.perform]
    rcases hconn : link.conn with _ | a
    · have hexhausted : Plain (.protocol "request ID exhausted") := nofun
      simp only [temporalCall, hconn]
      split_ifs
      · exact .failed h hexhausted _ _ _
      · have hskipped := h.skip (Nat.le_add_right link.nextId 2)
        rw [hconn] at hskipped
        refine ⟨hskipped, List.prefix_rfl, fun call hcall => ?_⟩
        rw [List.mem_singleton.mp hcall]
        exact .failed hnotConnected _ _ _ _
    · obtain ⟨stream, -, hclean⟩ := h.live a hconn
      obtain ⟨hcalled, htells⟩ := @temporalCall_spec document utf8Error a link hconn hclean.held method params control
        maxHost script
      refine hcalled.performed h hconn ⟨hcalled.read, htells.ok, fun kind message he => ?_, fun notice hnotice => ?_⟩
      · rcases htells.emulator kind message he with hown | ⟨hkind, hnone⟩
        · exact .inl hown
        · exact .inr ⟨.inr ⟨rfl, hkind⟩, hnone⟩
      · rw [htells.shown] at hnotice
        cases hnotice

theorem run_spec (ops : List LinkOp) : ∀ {link : TcpLink}, Inv document link →
    Performed document link (run document utf8Error link ops) := by
  induction ops with
  | nil =>
    intro link h
    exact .quiet h List.prefix_rfl
  | cons op ops ih =>
    intro link h
    have hop := @perform_spec document utf8Error link h op
    have hrest := ih hop.inv
    refine ⟨hrest.inv, hop.log.trans hrest.log, fun call hcall => ?_⟩
    rcases List.mem_append.mp hcall with hcall | hcall
    · exact (hop.calls call hcall).extend hrest.log
    · exact hrest.calls call hcall

end

/-- Over every run of a link with identifiers to spare: a connection on which something went wrong is not used again,
no byte that came is lost, no two lines have one identifier, and every call is answered from its own frames. -/
theorem replies_attributed (document : String → Line) (utf8Error : List UInt8 → String) (ops : List LinkOp)
    (hids : (run document utf8Error .new ops).1.nextId < maxId) :
    (∀ key, (on key (run document utf8Error .new ops).1.log).Pairwise fun w w' =>
      w.fatal document = true → w'.io = false) ∧
    (∀ key stream, (run document utf8Error .new ops).1.streams[key]? = some stream →
      (on key (run document utf8Error .new ops).1.log).filterMap What.delivered <+: framing maxFrameBytes stream) ∧
    (∀ a, (run document utf8Error .new ops).1.conn = some a →
      ∃ stream, (run document utf8Error .new ops).1.streams[a.key]? = some stream ∧
        framing maxFrameBytes stream = (on a.key (run document utf8Error .new ops).1.log).filterMap What.delivered ++
          framing maxFrameBytes a.io.unread) ∧
    (written (run document utf8Error .new ops).1.log).Pairwise (· < ·) ∧
    ∀ call ∈ (run document utf8Error .new ops).2, Attributed document (run document utf8Error .new ops).1.log call := by
  have h := @run_spec document utf8Error ops .new .new
  refine ⟨h.inv.fenced, fun key stream hstream => (h.inv.closed key stream hstream).framed, fun a ha => ?_,
    (h.inv.ids hids).1, h.calls⟩
  obtain ⟨stream, hstream, hclean⟩ := h.inv.live a ha
  exact ⟨stream, hstream, hclean.framed⟩

/-- The reply of a call that timed out comes with the reply of the next call, and is passed over. -/
def lateReply : List LinkOp :=
  let pass : Pass := ⟨false, .ok (), none, false, .ok (), .ok (), false, false⟩
  let frame (id : Char) : List UInt8 :=
    utf8Bytes ("\x7b\"id\":" ++ String.singleton id ++ ",\"ok\":true,\"result\":" ++ String.singleton id ++ "\x7d\n")
  let call (passes : List Pass) : LinkOp := .ordinary "status" .null false none ⟨.ok (), .ok (), passes, .ok ()⟩
  [.adopt [.timedOut, .bytes 0x7b ((frame '1').drop 1 ++ frame '2')], call [pass], call [pass, pass]]

def lateReplyDocument (text : String) : Line :=
  let frame (id : Nat) : Line := .doc (.obj [("id", .nat id), ("ok", .bool true), ("result", .nat id)])
  if text = "\x7b\"id\":1,\"ok\":true,\"result\":1\x7d\n" then frame 1
  else if text = "\x7b\"id\":2,\"ok\":true,\"result\":2\x7d\n" then frame 2
  else .text text

theorem replies_attributed_late :
    (run lateReplyDocument (fun _ => "") .new lateReply).2.map (fun call => call.answered.result) =
        [some (.error .timeout), some (.ok (.nat 2))] ∧
      ∀ call ∈ (run lateReplyDocument (fun _ => "") .new lateReply).2,
        Attributed lateReplyDocument (run lateReplyDocument (fun _ => "") .new lateReply).1.log call := by
  have hids : (run lateReplyDocument (fun _ => "") .new lateReply).1.nextId < maxId := by decide +kernel
  exact ⟨by decide +kernel, (replies_attributed lateReplyDocument (fun _ => "") lateReply hids).2.2.2.2⟩

/-- A temporal call on a stream that ends at once returns an error of the emulator with no frame behind it. -/
theorem temporal_call_unverified :
    let key := OperationKey.toValue ⟨"launch-a", "owner-a", "operation-a"⟩
    let control : ProgressCallControl := ⟨some ⟨"cancel_operation", key⟩, some 2000, some 300, none⟩
    let moment : Moment := ⟨1, .ok (), none, 1, .ok (), .ok (), none⟩
    let ops : List LinkOp := [.adopt [], .temporal "step" (.obj [("_control", key)]) control 2000
      ⟨.ok (), ⟨false, 0, 0, .ok (), .ok ()⟩, [moment], .ok ()⟩]
    (run Line.text (fun _ => "") .new ops).1.streams = [[]] ∧
      (run Line.text (fun _ => "") .new ops).2.map (fun call => (call.answered.result, call.answered.frames)) =
        [(some (.error (.emulator "temporal_unverified" "native terminal was not verified: connection closed")), [])] := by
  decide +kernel

end Emucap.Live.Tcp
