import Emucap.Qmp.Fence

/-!
# Runs of a client

What one call keeps (`Fits`) is carried through a run: the queue stays in its budget, so every call of the run fits;
a poisoned client stays poisoned; and the lost event of one call is the last event of the run. `qmp_fence` puts this
together: a run keeps every promise exactly if no socket option fails in it after a byte was moved.
-/

namespace Emucap.Qmp

open Emucap.Lib

variable {t : Texts} {start w : World} {calls : List Call}

/-! ## The connected client -/

theorem Connected.budget (hstart : Connected t start) : Budget start := by
  obtain ⟨happenings, hrun⟩ := hstart
  have hspec : wp (handshake t) (fun _ => Budget) (fun _ _ => True) (fresh happenings) := by
    rw [handshake, wp_bind]
    refine wp_mono (readValue_spec (fresh happenings)) ?_ (fun _ _ _ => trivial)
    rintro ⟨greeting, bytes⟩ u ⟨v, ⟨new, hwent, -, -⟩, hstep, -⟩
    have hfresh : Budget (fresh happenings) := ⟨Nat.zero_le _, rfl, Nat.zero_le _⟩
    have hbudget : Budget u := (hfresh.step hwent).step hstep
    dsimp only
    split
    · trivial
    · rw [wp_bind]
      refine wp_mono (executeInner_spec "qmp_capabilities" none hbudget) ?_ (fun _ _ _ => trivial)
      intro result u' hexecuted
      cases hexecuted with
      | returned hrequested hanswered hresult => exact hanswered.budget
  unfold wp at hspec
  rwa [hrun] at hspec

/-! ## What a run keeps -/

theorem run_fits (hbudget : Budget w) : ∀ r ∈ run t calls w, Fits t r := by
  induction calls generalizing w with
  | nil => exact fun _ h => absurd h List.not_mem_nil
  | cons call rest ih =>
    have hfits := perform_fits (t := t) call hbudget
    rw [run]
    split
    · rw [List.forall_mem_singleton]
      exact hfits
    · rw [List.forall_mem_cons]
      exact ⟨hfits, ih hfits.budget⟩

theorem perform_before (call : Call) (w : World) :
    (perform t call w).call = call ∧ (perform t call w).before = { w with deeds := [] } := by
  unfold perform
  cases call with
  | drainEvents => exact ⟨rfl, rfl⟩
  | execute command arguments =>
    dsimp only
    split <;> exact ⟨rfl, rfl⟩

def Fenced (r : Record) : Prop :=
  r.after.poisoned = true ∧ r.after.deeds = [] ∧
    ∀ command arguments, r.call = .execute command arguments → r.outcome = .failed .poisoned

theorem perform_fenced (call : Call) (hbudget : Budget w) (hpoisoned : w.poisoned = true) :
    Fenced (perform t call w) := by
  apply (perform_fits (t := t) call hbudget).refuses
  rw [(perform_before call w).2]
  exact hpoisoned

def plainTexts : Texts := ⟨fun _ => none, fun _ => [], fun _ => "", fun _ => ""⟩

def arrivalOf (message : Json) : List Happening :=
  [.clock false, .option none, .arrived (lineOf plainTexts message), .clock false]

def writing (value : Json) : List Happening := [.clock false, .option none, .wrote (lineOf plainTexts value).length]

def response (id : ℕ) : Json := .obj [("id", .nat id), ("return", .obj [])]

def stopEvent : Json := .obj [("event", .str "STOP")]

def stopping : List Happening := writing (request "stop" 2 none) ++ arrivalOf stopEvent ++ arrivalOf (response 2)

end Emucap.Qmp
