import Secbuf.BufferScript
import Secbuf.PairedCalls

/-! Skipping a string instead of reading it. The two string readers part only after the prefix, and
move the cursor alike; so strings may be skipped anywhere in a script of reads. -/

namespace Secbuf.SkippedStrings
open Calls Storage BufferCore BufferOps BufferScript PairedCalls

abbrev Read := BufferOp × Bool

/-- What stands in the script once its marked `get_string` calls are `eat_string` calls. -/
def replaced (read : Read) : BufferOp := if read = (.getString, true) then .eatString else read.1

def shown (read : Read) (reply : Reply) : Reply := if read = (.getString, true) then .unit else reply

def readAll : List BufferOp → BufferM (List Reply)
  | [] => pure []
  | op :: rest => step op >>= fun reply => readAll rest >>= fun replies => pure (reply :: replies)

def Same (b c : Buffer) : Prop := b = c ∧ Valid b

/-- Two calls that answer as related, fail together, and leave the same state whichever it is. -/
abbrev Together {α β : Type} (V : α → β → Prop) :
    Outcome Buffer BufferError α → Outcome Buffer BufferError β → Prop :=
  Paired True V (fun _ _ => True) Same

section
variable {b : Buffer}

theorem together_step (valid : Valid b) (op : BufferOp) {V : Reply → Reply → Prop}
    (refl : ∀ reply, V reply reply) : Together V (step op b) (step op b) := by
  have lands := step_lands valid op
  cases done : step op b with
  | ok reply t => exact .ok (refl reply) ⟨rfl, (lands t (by rw [done]; rfl)).1⟩
  | err error t => exact .err trivial ⟨rfl, (lands t (by rw [done]; rfl)).1⟩
  | fault reason => exact .fault trivial reason

/-- The string readers come back together: the same prefix, the same limit, the same end. -/
theorem together_strings (valid : Valid b) :
    Paired False (fun _ _ => True) (fun _ _ => True) Same (getString b) (eatString b) := by
  rw [getString_spec valid, eatString_spec valid]
  split_ifs with inside long body
  · exact .err trivial ⟨rfl, advance_valid valid inside⟩
  · exact .ok trivial ⟨rfl, advance_valid valid (by omega)⟩
  · exact .err trivial ⟨rfl, advance_valid valid inside⟩
  · exact .err trivial ⟨rfl, valid⟩

theorem together_read (valid : Valid b) (read : Read) :
    Together (fun reply reply' => reply' = shown read reply) (step read.1 b)
      (step (replaced read) b) := by
  unfold replaced shown
  by_cases skipped : read = (.getString, true)
  · simp only [skipped]
    have strings : Together (fun _ _ => True) (getString b) (eatString b) :=
      (together_strings valid).mono False.elim (fun _ _ => id) (fun _ _ => id) fun _ _ => id
    exact strings.map fun _ _ _ => rfl
  · simp only [if_neg skipped]
    exact together_step valid read.1 fun _ => rfl

theorem together_script (valid : Valid b) (script : List Read) :
    Together (fun replies replies' => replies' = List.zipWith shown script replies)
      (readAll (script.map Prod.fst) b) (readAll (script.map replaced) b) := by
  induction script generalizing b with
  | nil => exact .ok rfl ⟨rfl, valid⟩
  | cons read rest ih =>
    apply Paired.bind (together_read valid read)
    rintro reply _ s _ rfl ⟨rfl, after⟩
    apply Paired.bind (ih after)
    rintro replies _ t _ rfl ⟨rfl, last⟩
    exact .ok rfl ⟨rfl, last⟩

/-- In every state `eat_string` succeeds where `get_string` does and leaves the state it leaves,
whether they succeed or fail; so in every script of calls, skipping any of its strings changes
neither whether it succeeds, nor its other answers, nor the state at its end. -/
theorem strings_skipped (reach : ReachableWrapping b) :
    ((∃ s t, getString b = .ok s t) ↔ ∃ value t, eatString b = .ok value t) ∧
    (∃ t, (getString b).state? = some t ∧ (eatString b).state? = some t) ∧
    ∀ script : List Read,
      ((∃ replies t, readAll (script.map Prod.fst) b = .ok replies t) ↔
        ∃ replies t, readAll (script.map replaced) b = .ok replies t) ∧
      (readAll (script.map Prod.fst) b).state? = (readAll (script.map replaced) b).state? ∧
      ∀ replies t, readAll (script.map Prod.fst) b = .ok replies t →
        readAll (script.map replaced) b = .ok (List.zipWith shown script replies) t := by
  have strings := together_strings reach.valid
  refine ⟨strings.ok_iff, ?_, fun script => ?_⟩
  · obtain ⟨t, _, first, second, rfl, -⟩ := strings.comes_back
    exact ⟨t, first, second⟩
  · have together := together_script reach.valid script
    refine ⟨together.ok_iff, together.state?_eq fun _ _ related => related.1, ?_⟩
    intro replies t done
    rw [done] at together
    obtain ⟨_, _, skipped, rfl, rfl, -⟩ := together.of_ok
    exact skipped

theorem strings_skipped_one :
    ∃ b t, Made b ∧ readAll [.getString, .getByte] b = .ok [.bytes [7, 8], .byte 5] t ∧
      readAll [.eatString, .getByte] b = .ok [.unit, .byte 5] t := by
  have made : Made (.fromVec ⟨[0, 0, 0, 2, 7, 8, 5], [], [], by decide⟩) := .fromVec _ rfl
  obtain ⟨t, done⟩ : ∃ t, readAll [.getString, .getByte]
      (.fromVec ⟨[0, 0, 0, 2, 7, 8, 5], [], [], by decide⟩) = .ok [.bytes [7, 8], .byte 5] t :=
    ⟨_, by rfl⟩
  obtain ⟨-, -, scripts⟩ := strings_skipped ⟨_, made, .refl⟩
  have skipped := (scripts [(.getString, true), (.getByte, false)]).2.2 _ t done
  exact ⟨_, t, made, done, skipped⟩

end

end Secbuf.SkippedStrings
