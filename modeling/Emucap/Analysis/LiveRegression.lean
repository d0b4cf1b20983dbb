import Emucap.InputMovie
import Emucap.Live.Runtime
import Emucap.Live.Tools.SessionCleanup

/-!
# Replaying a movie

The part of `analysis/live_regression.rs` that prepares a recorded case and replays its movie: one frame at a time,
under the input of the frame's row. The link, the clock and the observation are those of a `Replay`.
-/

namespace Emucap.Analysis

open Emucap.Lib Emucap.Live
open Emucap.InputMovie (Movie MovieFrame ControllerRow MovieError)

/-! ## Limits -/

def maxSyncAdvanceCount : ℕ := 5000

def maxSyncOperationMs : ℕ := 250000

def maxRegressionMovieBytes : ℕ := 1024 * 1024

def maxRegressionMovieRows : ℕ := 5000

def maxRegressionAdvances : ℕ := maxSyncAdvanceCount

/-! ## Movies -/

/-- Each row stands for a later frame than the row before it. -/
def validateOrder : List MovieFrame → Except String Unit
  | first :: second :: rest =>
    if second.frame ≤ first.frame then
      .error s!"movie frames are not strictly increasing: {first.frame} followed by {second.frame}"
    else validateOrder (second :: rest)
  | _ => .ok ()

def validateMovieFrames (movie : Movie) : Except String Unit := do
  validateOrder movie.frames
  require (movie.frames.length ≤ maxRegressionMovieRows) s!"movie exceeds {maxRegressionMovieRows} frame rows"
  match movie.frames.getLast? with
  | none => return ()
  | some last =>
    let advances ← orError "movie frame count overflow" (checkedAdd last.frame 1)
    require (advances ≤ maxRegressionAdvances) s!"movie advances {advances} exceed the limit {maxRegressionAdvances}"

def asI64 : Json → Option ℤ
  | .nat n => if n < 2 ^ 63 then some n else none
  | .neg n => if n < 2 ^ 63 then some (-(n : ℤ) - 1) else none
  | _ => none

def validateAxis (port : ℕ) (advertised : Json) (name : String) (value : ℤ) : Except String Unit := do
  let specification ← orError s!"controller axis {name} is not advertised for port {port}"
    ((advertised.get name).filter Json.isObject)
  let minimum ← orError s!"controller axis {name} has no valid minimum" ((specification.get "minimum").bind asI64)
  let maximum ← orError s!"controller axis {name} has no valid maximum" ((specification.get "maximum").bind asI64)
  require (minimum ≤ maximum) s!"controller axis {name} advertises an invalid range {minimum}..{maximum}"
  require (minimum ≤ value ∧ value ≤ maximum)
    s!"controller axis {name} value {value} is outside the advertised range {minimum}..{maximum}"

def validateControllerAxes (status : Json) (port : ℕ) (axes : List (List Char × ℤ)) : Except String Unit :=
  if axes = [] then .ok ()
  else do
    let ports ← orError
      "controller axes are not advertised by the current runtime; read full status for available controls"
      (((status.get "input_axes").bind (·.get "ports")).bind Json.asArray)
    let matching := ports.filter fun entry => (entry.get "port").bind Json.asU64 = some port
    match matching with
    | [entry] =>
      let advertised ← orError "the current runtime advertised malformed controller axes"
        ((entry.get "axes").filter Json.isObject)
      axes.forM fun axis => validateAxis port advertised (String.ofList axis.1) axis.2
    | _ => .error s!"controller axes are not advertised for port {port}; use an advertised port"

/-! ## Preparing a case -/

inductive Verdict where
  | missingPayload
  | invalid (reason : String)
  deriving DecidableEq

structure Predicate where
  memoryType : String
  address : ℕ
  length : ℕ
  deriving DecidableEq

inductive Repro where
  | savestate (stateSha1 : String) (advanceFrames : ℕ)
  | inputReplay (start movie : String) (anchor : Option Predicate)
  deriving DecidableEq

structure Case where
  id : String
  repro : Repro
  predicate : Predicate
  deriving DecidableEq

inductive CaseMemberError where
  | missing
  | unsafeMember (reason : String)
  deriving DecidableEq

inductive MemberType where
  | file
  | directory
  | symlink
  | other
  deriving DecidableEq

/-- A case directory, as the calls of the file system answer for it. -/
structure CaseDir where
  /-- `file_name`, where it is text -/
  fileName : Option String
  path : FsPath
  canonical : Except IoError FsPath
  metadata : String → Except IoError MemberType
  canonicalMember : String → Except IoError FsPath
  /-- `read_bounded_regular_member` -/
  readBounded : String → ℕ → Except IoError (List UInt8)

/-- The decoders whose texts go into verdicts. -/
structure MovieTexts where
  utf8Error : List UInt8 → String
  /-- `serde_json::from_str` for a controller state -/
  decodeRow : List Char → Except String ControllerRow
  movieError : MovieError → String

def caseMemberPath (dir : CaseDir) (fileName : String) : Except CaseMemberError FsPath := do
  require (isPortableFileName fileName 128) (.unsafeMember "case member must be a portable file name")
  let root ← dir.canonical.mapError fun e => .unsafeMember ("invalid case directory: " ++ e.message)
  let metadata ← (dir.metadata fileName).mapError fun e =>
    if e.kind = .notFound then .missing else .unsafeMember ("cannot inspect case member: " ++ e.message)
  require (metadata = .file) (.unsafeMember "case member is not a regular owned file")
  let canonical ← (dir.canonicalMember fileName).mapError fun e => .unsafeMember ("invalid case member: " ++ e.message)
  require (root.rooted = canonical.rooted ∧ root.components <+: canonical.components)
    (.unsafeMember "case member escapes the case directory")
  return canonical

def stateMemberPath (dir : CaseDir) (stateId : String) : Except CaseMemberError FsPath :=
  caseMemberPath dir s!"{stateId}.mss"

def memberErrorVerdict : CaseMemberError → Verdict
  | .missing => .missingPayload
  | .unsafeMember reason => .invalid reason

/-- The movie, and the bytes of the movies read so far. -/
def readPreparedMovie (texts : MovieTexts) (dir : CaseDir) (movieName : String) (aggregateMovieBytes : ℕ) :
    Except Verdict Movie × ℕ :=
  match caseMemberPath dir movieName with
  | .error e => (.error (memberErrorVerdict e), aggregateMovieBytes)
  | .ok _ =>
    match dir.readBounded movieName maxRegressionMovieBytes with
    | .error e =>
      (.error (if e.kind = .notFound then .missingPayload else .invalid ("invalid movie payload: " ++ e.message)),
        aggregateMovieBytes)
    | .ok bytes =>
      (do
        let text ← orError (.invalid ("movie is not UTF-8: " ++ texts.utf8Error bytes)) (Lib.fromUtf8 bytes)
        let movie ← (InputMovie.parseMovieBounded texts.decodeRow text.toList maxRegressionMovieRows).mapError
          fun e => .invalid (texts.movieError e)
        (validateMovieFrames movie).mapError Verdict.invalid
        return movie,
       (checkedAdd aggregateMovieBytes bytes.length).getD (2 ^ 64 - 1))

structure PreparedCase where
  caseRecord : Case
  statePath : Option FsPath
  replayStartPath : Option FsPath
  movie : Option Movie
  advances : ℕ
  deriving DecidableEq

/-- The frames that a replay of the movie goes through. -/
def movieAdvances (movie : Movie) : Option ℕ :=
  match movie.frames.getLast? with
  | some frame => checkedAdd frame.frame 1
  | none => some 0

/-- The state a replay starts from: none for a reset. -/
def replayStart (dir : CaseDir) (start : String) : Except Verdict (Option FsPath) :=
  if start = "reset" then .ok none else some <$> (stateMemberPath dir start).mapError memberErrorVerdict

def prepareCaseCounted (texts : MovieTexts) (dir : CaseDir) (caseRecord : Case) (aggregateMovieBytes : ℕ) :
    Except Verdict PreparedCase × ℕ :=
  let dirName := dir.fileName.getD ""
  if dirName ≠ caseRecord.id then
    (.error (.invalid s!"case id ({caseRecord.id}) does not match directory name ({dirName})"), aggregateMovieBytes)
  else if caseRecord.predicate.length = 0 ∨ 8 < caseRecord.predicate.length then
    (.error (.invalid s!"invalid predicate length: {caseRecord.predicate.length}"), aggregateMovieBytes)
  else
    match caseRecord.repro with
    | .savestate stateSha1 advanceFrames =>
      (do
        require (advanceFrames ≤ maxRegressionAdvances)
          (.invalid s!"savestate advance count {advanceFrames} exceeds {maxRegressionAdvances}")
        let statePath ← (stateMemberPath dir stateSha1).mapError memberErrorVerdict
        return ⟨caseRecord, some statePath, none, none, advanceFrames⟩,
       aggregateMovieBytes)
    | .inputReplay start movie _ =>
      let read := readPreparedMovie texts dir movie aggregateMovieBytes
      (do
        let parsed ← read.1
        let advances ← orError (.invalid "movie frame count overflow") (movieAdvances parsed)
        let startPath ← replayStart dir start
        return ⟨caseRecord, none, startPath, some parsed, advances⟩,
       read.2)

/-! ## Replaying -/

structure Replay (σ τ : Type) where
  link : EmulatorLink σ
  texts : LinkTexts
  expired : σ → Bool × σ
  observe : σ → Except String τ × σ

def deadlineError : LinkError := .protocol s!"regression operation exceeded {maxSyncOperationMs} ms"

def jsonInt : ℤ → Json
  | .ofNat n => .nat n
  | .negSucc n => .neg n

/-- The params of a `set_input`. -/
def inputParams (input : ControllerRow) : Json :=
  let params : Json := .obj [("buttons", .arr (input.buttons.map fun b => .str (String.ofList b)))]
  if input.axes = [] then params
  else params.set "axes" (.obj (input.axes.map fun axis => (String.ofList axis.1, jsonInt axis.2)))

def stepParams : Json := .obj [("frames", .nat 1)]

def anchorParams (anchor : Predicate) : Json :=
  .obj [("end", .nat anchor.address), ("kind", .str "exec"), ("memory_type", .str anchor.memoryType),
    ("pause_on_hit", .bool true), ("start", .nat anchor.address)]

def reportsHit (answer : Json) : Bool :=
  match (answer.get "events").bind Json.asArray with
  | some events => !events.isEmpty
  | none => false

variable {σ τ : Type}

namespace Replay
variable (r : Replay σ τ)

def display (e : LinkError) : String := r.texts.display e

def requireTime : OnLink LinkError σ Unit := do
  if ← onState r.expired then
    note .late
    throw deadlineError
  else pure ()

/-- `call_before_deadline`, with its error as the replay reports it. -/
def callBeforeDeadline (method : String) (params : Json) : OnLink String σ Json :=
  mapError r.display do
    r.requireTime
    r.link.issue method params

def observeNow : OnLink String σ τ := do
  let value ← onState r.observe
  note (.observed value.isOk)
  fromExcept value

def observeBeforeDeadline : OnLink String σ τ := do
  mapError r.display r.requireTime
  r.observeNow

def validateMovieAxes (movie : Movie) : OnLink String σ Unit :=
  if movie.frames.all fun f => f.axes = [] then pure ()
  else do
    let status ← r.callBeforeDeadline "status" (.obj [])
    fromExcept (movie.frames.forM fun f => validateControllerAxes status 0 f.axes)

def pollAnchorObserve : OnLink String σ (Option τ) := do
  let answer ← r.callBeforeDeadline "poll_events" (.obj [])
  if reportsHit answer then some <$> r.observeBeforeDeadline else pure none

/-- The stale breakpoints and events are dropped before the anchor is set. -/
def armAnchor : Option Predicate → OnLink String σ (Option τ)
  | none => pure none
  | some anchor => do
    let _ ← r.callBeforeDeadline "clear_all_breakpoints" (.obj [])
    let _ ← r.callBeforeDeadline "poll_events" (.obj [])
    let _ ← r.callBeforeDeadline "set_breakpoint" (anchorParams anchor)
    r.pollAnchorObserve

/-- One frame under an input, and with an anchor a look for its hit. -/
def advanceFrame (anchored : Bool) (input : ControllerRow) : OnLink String σ (Option τ) := do
  let _ ← r.callBeforeDeadline "set_input" (inputParams input)
  let _ ← r.callBeforeDeadline "step" stepParams
  if anchored then r.pollAnchorObserve else pure none

/-- `while next < mf.frame`: the rounds that are left, all without input. -/
def replayGap (anchored : Bool) : ℕ → OnLink String σ (Option τ)
  | 0 => pure none
  | rounds + 1 => orGoOn (r.advanceFrame anchored ⟨[], []⟩) (replayGap anchored rounds)

/-- The loop over the rows. `next` is the number of frames stepped so far; the gap brings it up to the row's frame. -/
def replayRows (anchored : Bool) : ℕ → List MovieFrame → OnLink String σ (Option τ)
  | _, [] => pure none
  | next, mf :: rest =>
    orGoOn (r.replayGap anchored (mf.frame - next)) <|
      orGoOn (r.advanceFrame anchored ⟨mf.buttons, mf.axes⟩) (replayRows anchored (max next mf.frame + 1) rest)

/-- An anchor that was not hit leaves nothing to observe. -/
def finishBody (anchor : Option Predicate) : OnLink String σ (Option τ) :=
  if anchor.isSome then pure none else some <$> r.observeBeforeDeadline

def replayMovieBody (movie : Movie) (anchor : Option Predicate) : OnLink String σ (Option τ) :=
  orGoOn (r.armAnchor anchor) <|
    orGoOn (r.replayRows anchor.isSome 0 movie.frames) (r.finishBody anchor)

def attemptCleanup (expectedLaunchId : Option String) (method : String) (params : Json) :
    OnLink String σ (List String) := do
  match ← attempt (mapError r.display (callSessionCleanup r.texts r.link method params expectedLaunchId)) with
  | .ok _ => pure []
  | .error e => pure [method ++ ": " ++ e]

def cleanupReplay (expectedLaunchId : Option String) : OnLink String σ Unit := do
  let input ← r.attemptCleanup expectedLaunchId "set_input" (inputParams ⟨[], []⟩)
  let breakpoints ← r.attemptCleanup expectedLaunchId "clear_all_breakpoints" (.obj [])
  let pause ← r.attemptCleanup expectedLaunchId "pause" (.obj [])
  let failures := input ++ breakpoints ++ pause
  if failures = [] then pure ()
  else throw ("temporal cleanup failed (" ++ String.intercalate "; " failures ++ ")")

/-- `finish_with_cleanup`, as a replay combines the two errors. -/
def finishReplay (outcome : Except String (Option τ)) (cleanup : Except String Unit) : Except String (Option τ) :=
  match outcome, cleanup with
  | .ok value, .ok () => .ok value
  | .ok _, .error cleanup => .error cleanup
  | .error primary, .ok () => .error primary
  | .error primary, .error cleanup => .error (primary ++ "; " ++ cleanup)

def replayPaused (movie : Movie) (anchor : Option Predicate) : OnLink String σ (Option τ) := do
  let launchId ← onState fun s => (r.link.launchId s, s)
  let outcome ← attempt (r.replayMovieBody movie anchor)
  let cleanup ← attempt (r.cleanupReplay launchId)
  fromExcept (finishReplay outcome cleanup)

def replayMovieObserve (movie : Movie) (anchor : Option Predicate) : OnLink String σ (Option τ) := do
  fromExcept (validateMovieFrames movie)
  r.validateMovieAxes movie
  let _ ← r.callBeforeDeadline "pause" (.obj [])
  r.replayPaused movie anchor

end Replay

end Emucap.Analysis
