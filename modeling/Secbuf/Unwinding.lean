import Secbuf.Calls

/-! Programs that go on after a panic. A call on a system returns or unwinds, and either way it
leaves a state that later calls find. Nothing here depends on what the system is. -/

namespace Secbuf.Unwinding
open Calls

inductive Ending (σ : Type) where
  | returned (after : σ)
  | panicked (after : σ)
  deriving DecidableEq, Repr

/-- How each call ends in each state, and nothing where it cannot be made. -/
abbrev System (σ α : Type) := σ → α → Option (Ending σ)

section
variable {σ α : Type}

def Ending.after : Ending σ → σ
  | .returned after => after
  | .panicked after => after

def Went (system : System σ α) (s : σ) (action : α) (t : σ) : Prop :=
  ∃ ending, system s action = some ending ∧ ending.after = t

def goOn (system : System σ α) (s : σ) (action : α) : Option σ := (system s action).map Ending.after

def Panics (system : System σ α) (s : σ) (action : α) : Prop :=
  ∃ t, system s action = some (.panicked t)

/-- From `start` on, whatever is called and however it ends, no call asked about panics. -/
def NeverPanics (system : System σ α) (asked : σ → α → Prop) (start : σ) : Prop :=
  ∀ s, Reaches (Went system) start s → ∀ action, asked s action → ¬ Panics system s action

variable {system : System σ α} {asked : σ → α → Prop} {I : σ → Prop} {s t : σ} {action : α}

theorem ending_of_goOn (went : goOn system s action = some t) :
    ∃ ending, system s action = some ending ∧ ending.after = t := Option.map_eq_some_iff.mp went

theorem keeps_ending (run : Reaches (Went system) s t) (holds : I s)
    (one : ∀ s action ending, I s → system s action = some ending → I ending.after) : I t := by
  apply run.keeps holds
  rintro s action _ before ⟨ending, ended, rfl⟩
  exact one s action ending before ended

theorem neverPanics_of_invariant (holds : I s)
    (one : ∀ s action ending, I s → system s action = some ending → I ending.after)
    (safe : ∀ s action, I s → asked s action → ¬ Panics system s action) :
    NeverPanics system asked s := by
  intro t run action mine
  exact safe t action (keeps_ending run holds one) mine

theorem NeverPanics.here (never : NeverPanics system asked s) (mine : asked s action) :
    ¬ Panics system s action := never s .refl action mine

/-- A system that says nothing of panics, seen as one that does: where its steps are calls that
return, its runs are among the runs in which some calls may panic. -/
theorem reaches_of_returned {τ β : Type} {step : τ → β → τ → Prop} (state : τ → σ) (call : β → α)
    (returns : ∀ v b w, step v b w → system (state v) (call b) = some (.returned (state w)))
    {v w : τ} (run : Reaches step v w) : Reaches (Went system) (state v) (state w) := by
  induction run with
  | refl => exact .refl
  | tail _ move ih =>
    obtain ⟨b, taken⟩ := move
    exact ih.tail ⟨call b, _, returns _ b _ taken, rfl⟩

end

end Secbuf.Unwinding
