import Emucap.Lib.Checked
import Emucap.Live.CaptureRuns
import Emucap.Live.Continuity

/-!
# The generations of one port

A launcher prepares a generation, publishes it as the current one or gives it up (`prepare`, `commit` and `abort` of
`live/runtime.rs`). Several launchers may do so on one port, together with the capture calls of `CaptureCapsule`.
`prepare` and `abort` take no lock; `commit` holds the lock of `current.json` and is one step.
-/

namespace Emucap.Live

open Emucap.Lib

/-! ## The store -/

/-- The directory of one generation: the token file and the capture capsule. -/
structure Generation where
  auth : Option String
  capture : Option CaptureCapsule
  deriving DecidableEq

/-- What is on disk for one port: `current.json`, and the generation directories by launch id. -/
structure PortStore where
  current : Option CurrentManifest
  generations : String → Option Generation

namespace PortStore

def empty : PortStore := ⟨none, fun _ => none⟩

def currentId (s : PortStore) : Option String := s.current.map CurrentManifest.launchId

def auth (s : PortStore) (launchId : String) : Option String := (s.generations launchId).bind Generation.auth

def capture (s : PortStore) (launchId : String) : Option CaptureCapsule :=
  (s.generations launchId).bind Generation.capture

def setGeneration (s : PortStore) (launchId : String) (g : Option Generation) : PortStore :=
  { s with generations := Function.update s.generations launchId g }

def createDir (s : PortStore) (launchId : String) : PortStore :=
  s.setGeneration launchId (some ((s.generations launchId).getD ⟨none, none⟩))

@[simp] theorem setGeneration_self (s : PortStore) (launchId : String) (g : Option Generation) :
    (s.setGeneration launchId g).generations launchId = g := by
  simp [setGeneration]

theorem setGeneration_ne (s : PortStore) {launchId other : String} (g : Option Generation)
    (h : other ≠ launchId) : (s.setGeneration launchId g).generations other = s.generations other := by
  simp [setGeneration, h]

end PortStore

/-- `read_auth`, from the bytes of the token file. -/
def RuntimeStore.readAuth (s : PortStore) (launchId : String) : Except IoError (Option String) := do
  validateLaunchId launchId
  match s.auth launchId with
  | none => pure none
  | some bytes =>
    let token := trim bytes.toList
    require (token ≠ []) ⟨.invalidData, "empty runtime auth file"⟩
    pure (some (String.ofList token))

/-! ## Surroundings -/

/-- What is left of a directory that was to be removed. -/
structure Remains where
  dir : Bool
  auth : Bool
  capture : Bool
  deriving DecidableEq

def Remains.nothing : Remains := ⟨false, false, false⟩

def Remains.of (r : Remains) (g : Generation) : Option Generation :=
  if r.dir then some ⟨if r.auth then g.auth else none, if r.capture then g.capture else none⟩ else none

/-- The surroundings of one operation. `read` and `readAgain` are the reads of `current.json`, `publish` a
directory or file being made, `remove` the removal of a directory and `remains` what is left after a failed
one; `bridge` is the state of the bridge process of a manifest, if it names one. -/
structure GenerationWorld where
  lock : Except IoError Unit
  read : Except IoError Unit
  readAgain : Except IoError Unit
  publish : Publish
  remove : Except IoError Unit
  remains : String → Remains
  bridge : CurrentManifest → Option ProcessState
  capture : CaptureWorld

/-! ## Commit -/

namespace RuntimeStore

def generationCaptureBlocker (port : ℕ) (launchId : String) (w : GenerationWorld) (s : PortStore) :
    Except IoError (Option String) := do
  validateLaunchId launchId
  let _ ← w.capture.readCapture
  match (s.capture launchId).bind CaptureCapsule.generationMutationBlocker with
  | none => pure none
  | some reason =>
    -- Once every process of the generation is provably gone, no hook or input override survives.
    let current ← readCurrent port (w.readAgain.map fun _ => s.current)
    let terminated := current.any fun current =>
      current.launchId == launchId && w.capture.processState current.emulator == .exited &&
        (w.bridge current).all (· == .exited)
    pure (if terminated then none else some reason)

/-- `cleanup_other_generations`, as far as it gets. -/
def cleanupOtherGenerations (keep : String) (w : GenerationWorld) (s : PortStore) : PortStore :=
  { s with generations := fun id => if id = keep then s.generations id
      else (s.generations id).bind (w.remains id).of }

end RuntimeStore

namespace PreparedGeneration

def commitCheck (self : PreparedGeneration) (manifest : CurrentManifest) (w : GenerationWorld)
    (s : PortStore) : Except IoError Unit := do
  validateLaunchId manifest.launchId
  require (manifest.launchId = self.launchId ∧ manifest.port = self.port)
    ⟨.invalidInput, "runtime manifest does not match prepared generation"⟩
  w.lock
  let observed ← RuntimeStore.readCurrent self.port (w.read.map fun _ => s.current)
  require (observed.map CurrentManifest.launchId = self.expectedCurrentLaunchId)
    ⟨.wouldBlock, "runtime current generation changed after launch preparation"⟩
  match self.expectedCurrentLaunchId with
  | none => pure ()
  | some previous =>
    match ← RuntimeStore.generationCaptureBlocker self.port previous w s with
    | none => pure ()
    | some reason =>
      throw ⟨.wouldBlock, "runtime generation is blocked by recording capture safety: " ++ reason⟩

def commit (manifestBytes : CurrentManifest → Option ℕ) (self : PreparedGeneration)
    (manifest : CurrentManifest) (w : GenerationWorld) (s : PortStore) : Except IoError Unit × PortStore :=
  match self.commitCheck manifest w s with
  | .error e => (.error e, s)
  | .ok () =>
    match writeAtomicJson manifestBytes w.publish manifest s.current with
    | (.error e, current) => (.error e, { s with current := current })
    | (.ok (), current) =>
      (.ok (), RuntimeStore.cleanupOtherGenerations self.launchId w { s with current := current })

end PreparedGeneration

/-! ## Operations -/

inductive GenerationOp where
  | readCurrent
  | createDir (launchId : String)
  | writeAuth (launchId token : String)
  | commit (prepared : PreparedGeneration) (manifest : CurrentManifest)
  | remove (launchId : String)
  | capture (launchId : String) (o : CaptureOp)

abbrev GenerationOp.Reply : GenerationOp → Type
  | .readCurrent => Except IoError (Option CurrentManifest)
  | .createDir _ => Except IoError Unit
  | .writeAuth _ _ => Except IoError Unit
  | .commit _ _ => Except IoError Unit
  | .remove _ => Except IoError Unit
  | .capture _ o => o.Reply

/-- A directory or file is made, as `publish` says. -/
def published (publish : Publish) (made s : PortStore) : Except IoError Unit × PortStore :=
  match publish with
  | .stored => (.ok (), made)
  | .refused e => (.error e, s)
  | .unconfirmed e => (.error e, made)

/-- An operation of a capture call in a generation. The locked update makes the directory first. -/
def capturedExec (capsuleBytes : CaptureCapsule → Option ℕ) (launchId : String) (w : GenerationWorld)
    (s : PortStore) (o : CaptureOp) : Option o.Reply × PortStore :=
  let world := { w.capture with current := w.read.map fun _ => s.current }
  match o with
  | .update f =>
    let g := (s.generations launchId).getD ⟨none, none⟩
    let (reply, capture) := captureExec capsuleBytes world g.capture (.update f)
    (reply, s.setGeneration launchId (some { g with capture := capture }))
  | o => ((captureExec capsuleBytes world (s.capture launchId) o).1, s)

def generationExec (manifestBytes : CurrentManifest → Option ℕ) (capsuleBytes : CaptureCapsule → Option ℕ)
    (port : ℕ) (w : GenerationWorld) (s : PortStore) : (o : GenerationOp) → Option o.Reply × PortStore
  | .readCurrent => (some (RuntimeStore.readCurrent port (w.read.map fun _ => s.current)), s)
  | .createDir launchId =>
    let (reply, s') := published w.publish (s.createDir launchId) s
    (some reply, s')
  | .writeAuth launchId token =>
    match s.generations launchId with
    | none => (some (.error ⟨.notFound, "no such directory"⟩), s)
    | some g =>
      let (reply, s') := published w.publish (s.setGeneration launchId (some { g with auth := some token })) s
      (some reply, s')
  | .commit prepared manifest =>
    let (reply, s') := prepared.commit manifestBytes manifest w s
    (some reply, s')
  | .remove launchId =>
    match w.remove with
    | .ok () => (some (.ok ()), s.setGeneration launchId none)
    | .error e =>
      (some (.error e), s.setGeneration launchId ((s.generations launchId).bind (w.remains launchId).of))
  | .capture launchId o => capturedExec capsuleBytes launchId w s o

/-! ## Calls -/

/-- The random part of an id: 26 characters of the Crockford alphabet, in lower case. -/
structure Ulid where
  text : List Char
  length : text.length = 26
  alphanum : ∀ c ∈ text, c.isAlphanum = true

/-- One launcher: the ids it draws, the manifests it tries to publish, and how often it gives up after that
(`launch/run.rs` does not publish a generation it has given up). -/
structure Launch where
  id : Ulid
  token : Ulid × Ulid
  commits : List CurrentManifest
  aborts : ℕ

namespace Launch

def launchId (l : Launch) : String := String.ofList ("launch-".toList ++ l.id.text)

def reclaimToken (l : Launch) : String :=
  String.ofList ("reclaim-".toList ++ l.token.1.text ++ l.token.2.text)

end Launch

inductive GenerationCall where
  | launch (l : Launch)
  | capture (launchId : String) (d : CaptureRequest)

def GenerationCall.launchId? : GenerationCall → Option String
  | .launch l => some l.launchId
  | .capture _ _ => none

/-- What `prepare` returns, the reclaim token beside the generation it is for. -/
structure Preparation where
  generation : PreparedGeneration
  reclaimToken : String

structure LaunchOutcome where
  prepared : Preparation
  commits : List (Except IoError Unit)
  aborts : List (Except IoError Unit)

inductive GenerationReturn where
  | launched (r : Except IoError LaunchOutcome)
  | captured (r : Except CaptureCapsuleError CaptureReturn)

abbrev GenerationProg := Prog GenerationOp GenerationOp.Reply

namespace RuntimeStore

def prepare (port : ℕ) (l : Launch) : ExceptT IoError GenerationProg Preparation := do
  let current ← Prog.attempt GenerationOp.readCurrent id
  Prog.attempt (GenerationOp.createDir l.launchId) id
  -- `write_atomic_bytes` makes the parent directory once more.
  Prog.attempt (GenerationOp.createDir l.launchId) id
  Prog.attempt (GenerationOp.writeAuth l.launchId l.reclaimToken) id
  return {
    generation := {
      port := port
      launchId := l.launchId
      expectedCurrentLaunchId := current.map CurrentManifest.launchId }
    reclaimToken := l.reclaimToken }

end RuntimeStore

namespace PreparedGeneration

def commits (self : PreparedGeneration) : List CurrentManifest → GenerationProg (List (Except IoError Unit))
  | [] => pure []
  | manifest :: rest => do
    let result ← Prog.issue (GenerationOp.commit self manifest)
    return result :: (← self.commits rest)

def abort (self : PreparedGeneration) : ExceptT IoError GenerationProg Unit := do
  let current ← Prog.attempt GenerationOp.readCurrent id
  Prog.failIf (current.any fun m => m.launchId == self.launchId)
    ⟨.invalidInput, "cannot abort the current runtime generation"⟩
  Prog.attempt (GenerationOp.remove self.launchId) id

def aborts (self : PreparedGeneration) : ℕ → GenerationProg (List (Except IoError Unit))
  | 0 => pure []
  | n + 1 => do
    let result ← (self.abort).run
    return result :: (← self.aborts n)

end PreparedGeneration

def Launch.program (port : ℕ) (l : Launch) : GenerationProg (Except IoError LaunchOutcome) := do
  match ← (RuntimeStore.prepare port l).run with
  | .error e => return .error e
  | .ok prepared =>
    let commits ← prepared.generation.commits l.commits
    let aborts ← prepared.generation.aborts l.aborts
    return .ok ⟨prepared, commits, aborts⟩

def captureProgram (capsuleBytes : CaptureCapsule → Option ℕ) (port : ℕ) (launchId : String)
    (d : CaptureRequest) : GenerationProg (Except CaptureCapsuleError CaptureReturn) :=
  Prog.embed (GenerationOp.capture launchId) (fun _ r => r) (captureBody capsuleBytes ⟨port, launchId⟩ d)

def generationBody (capsuleBytes : CaptureCapsule → Option ℕ) (port : ℕ) :
    GenerationCall → GenerationProg GenerationReturn
  | .launch l => do return .launched (← l.program port)
  | .capture launchId d => do return .captured (← captureProgram capsuleBytes port launchId d)

/-- The generations of one port, and the launchers and capture calls that work on them. -/
def generationMachine (manifestBytes : CurrentManifest → Option ℕ) (capsuleBytes : CaptureCapsule → Option ℕ)
    (port : ℕ) : Machine GenerationOp GenerationOp.Reply GenerationReturn PortStore GenerationWorld
      GenerationCall where
  exec o w s := generationExec manifestBytes capsuleBytes port w s o
  body := generationBody capsuleBytes port

end Emucap.Live
