import Secbuf.RingCursors

/-! Getting everything out of a ring. The readers stop where nothing is counted as stored, and
also where there is no storage; the two agree as long as nothing is counted without storage,
and `incr_write` is the one operation that can count it. -/

namespace Secbuf.RingDrain
open Calls Storage BufferCore Secbuf.Ring CircularBuffer RingFifo RingCursors

def Stored (r : CircularBuffer) : Prop := 0 < r.used → r.data.isSome

/-- `while !ring.is_empty() { ring.read(&mut output)?; }` for at most so many rounds, each with
its own output; no result when they were not enough, or a read failed. -/
def drain : Nat → (Nat → List UInt8) → CircularBuffer → Option CircularBuffer
  | 0, _, r => if r.isEmpty then some r else none
  | rounds + 1, outputs, r =>
    if r.isEmpty then some r
    else
      match CircularBuffer.read (outputs 0) r with
      | .ok _ after => drain rounds (fun round => outputs (round + 1)) after
      | _ => none

structure Drains (r : CircularBuffer) : Prop where
  read : ∀ output, ∃ filled t, CircularBuffer.read output r =
    .ok (min output.length r.used, filled) t ∧ t.used = r.used - min output.length r.used
  peek : ∀ output, ∃ filled, peek output r = .ok (min output.length r.used, filled) r
  slices : ∃ first second, r.readPtrs = .ok (first, second) ∧
    first.length + second.length = r.used
  ends : ∀ outputs, (∀ round, outputs round ≠ []) → ∃ t, drain r.used outputs r = some t

section
variable {size : Nat} {r t : CircularBuffer}

theorem drain_ends {q : List UInt8} (rep : Represents size q r) {rounds : Nat}
    (enough : r.used ≤ rounds) {outputs : Nat → List UInt8} (room : ∀ round, outputs round ≠ []) :
    ∃ t, drain rounds outputs r = some t := by
  induction rounds generalizing q r outputs with
  | zero =>
    have empty : r.isEmpty = true := by simp [isEmpty, Nat.le_zero.mp enough]
    exact ⟨r, if_pos empty⟩
  | succ rounds ih =>
    unfold drain
    split_ifs with empty
    · exact ⟨r, rfl⟩
    · obtain ⟨t, copied, after⟩ := read_spec rep (outputs 0)
      have used := rep.used_eq
      have left := after.used_eq
      have nonempty := List.length_pos_of_ne_nil (room 0)
      have full : r.used ≠ 0 := by simpa [isEmpty] using empty
      rw [List.length_drop] at left
      rw [copied]
      exact ih after (by omega) fun round => room (round + 1)

theorem drains_of_represents {q : List UInt8} (rep : Represents size q r) : Drains r := by
  have used := rep.used_eq
  refine ⟨fun output => ?_, fun output => ?_, ?_, fun outputs room => drain_ends rep le_rfl room⟩
  · obtain ⟨t, copied, after⟩ := read_spec rep output
    refine ⟨_, t, by rw [used]; exact copied, ?_⟩
    rw [after.used_eq, List.length_drop, used]
    omega
  · exact ⟨_, by rw [used]; exact peek_spec rep output⟩
  · obtain ⟨first, second, slices, whole⟩ := readPtrs_spec rep
    exact ⟨first, second, slices, by rw [used, ← whole, List.length_append]⟩

/-- Where bytes are counted and there is no storage, no round takes anything out. -/
theorem drain_stuck (full : r.used ≠ 0) (bare : r.data = none) (rounds : Nat)
    (outputs : Nat → List UInt8) : drain rounds outputs r = none := by
  have nonempty : r.isEmpty = false := by simp [isEmpty, full]
  induction rounds generalizing outputs with
  | zero => simp [drain, nonempty]
  | succ rounds ih =>
    have nothing : CircularBuffer.read (outputs 0) r = .ok (0, outputs 0) r := by
      simp [CircularBuffer.read, full, bare]
    simp only [drain, nonempty, nothing, ih]
    rfl

/-- A reader gets what `used()` says exactly where it is stored. -/
theorem drains_iff_stored (sound : Sound size r) : Drains r ↔ Stored r := by
  constructor
  · intro drains full
    by_contra bare
    have gone : r.data = none := Option.not_isSome_iff_eq_none.mp bare
    obtain ⟨first, second, slices, total⟩ := drains.slices
    rw [readPtrs, if_neg full.ne', gone] at slices
    cases slices
    exact absurd total full.ne
  · intro stored
    exact drains_of_represents (sound.represents stored)

/-! What every operation keeps, and what `incr_write` may break. -/

/-- Bytes are only counted where there is storage for them. -/
def Backed (r : CircularBuffer) : RingOp → Prop
  | .incrWrite len => 0 < len → len ≤ r.size - r.used → r.data.isSome
  | _ => True

def Whole (size : Nat) (r : CircularBuffer) : Prop := Sound size r ∧ Stored r

theorem whole_of_represents {q : List UInt8} (rep : Represents size q r) (positive : 0 < size) :
    Whole size r :=
  ⟨.of_represents rep positive, rep.stored⟩

theorem whole_new {start : CircularBuffer} (made : Made size start) : Whole size start := by
  obtain ⟨first, same, rep⟩ := new_spec (sound_new made.new_eq).small
  rw [made.new_eq] at same
  cases same
  exact ⟨sound_new made.new_eq, rep.stored⟩

theorem whole_allocated (sound : Sound size r) : Whole size r.ensureAllocated := by
  obtain ⟨made, buffer, here⟩ := sound.allocated
  exact ⟨made, fun _ => by rw [here]; rfl⟩

theorem whole_fillRegion (region : Buffer.Region) (offset : Nat) (src : List UInt8) :
    (fillRegion region offset src).Keeps (Whole size) := by
  intro r t whole done
  refine ⟨fillRegion_sound region offset src r t whole.1 done, ?_⟩
  rcases fillRegion_cases done with rfl | ⟨buffer, after, -, -, rfl⟩
  · exact whole.2
  · exact fun _ => rfl

theorem whole_writePtr (len : Nat) : (writePtr len).Keeps (Whole size) := by
  intro r t whole done
  rw [writePtr_spec whole.1] at done
  split_ifs at done
  · cases done
    exact whole
  · cases done
    exact whole
  · cases done
    exact whole_allocated whole.1

theorem whole_writeSlicesMut (len : Nat) : (writeSlicesMut len).Keeps (Whole size) := by
  intro r t whole done
  rw [writeSlicesMut_spec whole.1] at done
  split_ifs at done
  · cases done
    exact whole
  · cases done
    exact whole
  · cases done
    exact whole_allocated whole.1
  · cases done
    exact whole_allocated whole.1

theorem whole_write (whole : Whole size r) (positive : 0 < size) {data : List UInt8}
    (done : (CircularBuffer.write data r).state? = some t) : Whole size t := by
  have rep := whole.1.represents whole.2
  by_cases fits : (contents r).length + data.length ≤ size
  · obtain ⟨after, written, held⟩ := write_accepts rep fits
    rw [written] at done
    cases done
    exact whole_of_represents held positive
  · rw [write_refuses rep (by omega)] at done
    cases done
    exact whole

theorem whole_step (whole : Whole size r) (positive : 0 < size) {op : RingOp}
    (backed : Backed r op) (stepped : Stepped r op t) : Whole size t := by
  refine ⟨sound_step whole.1 stepped, ?_⟩
  cases op with
  | write data =>
    simp only [Stepped, Ring.step, state?_map] at stepped
    exact (whole_write whole positive stepped).2
  | read output =>
    obtain ⟨after, copied, held⟩ := read_spec (whole.1.represents whole.2) output
    simp only [Stepped, Ring.step, state?_map, copied, state?_ok, Option.some.injEq] at stepped
    exact stepped ▸ held.stored
  | peek output =>
    simp only [Stepped, Ring.step, state?_map, peek_sound whole.1, Option.some.injEq] at stepped
    exact stepped ▸ whole.2
  | readPtrs =>
    simp only [Stepped, Ring.step] at stepped
    obtain ⟨_, done⟩ := attempt_state?.mp stepped
    obtain ⟨_, _, done⟩ := ok_of_bind done
    cases done
    exact whole.2
  | writePtr len offset src =>
    exact (keeps_writePtr (whole_writePtr len) whole_fillRegion offset src r t whole stepped).2
  | writeSlicesMut len first second =>
    exact (keeps_writeSlicesMut (whole_writeSlicesMut len) whole_fillRegion first second r t whole
      stepped).2
  | incrWrite len =>
    simp only [Stepped, Ring.step, state?_map] at stepped
    rcases incrWrite_cases whole.1 stepped with rfl | ⟨-, fits, rfl⟩
    · exact whole.2
    · intro counted
      by_cases some : 0 < len
      · exact backed some (by rw [whole.1.size_eq]; exact fits)
      · exact whole.2 (by simp only at counted; omega)
  | incrRead len =>
    simp only [Stepped, Ring.step, state?_map] at stepped
    rcases incrRead_cases whole.1 stepped with rfl | ⟨-, enough, rfl⟩
    · exact whole.2
    · exact fun counted => whole.2 (by simp only at counted; omega)
  | clear =>
    cases stepped
    exact fun counted => absurd counted (lt_irrefl _)
  | free =>
    cases stepped
    exact fun counted => absurd counted (lt_irrefl _)

theorem unbacked_step (sound : Sound size r) (positive : 0 < size) {op : RingOp}
    (unbacked : ¬ Backed r op) (stepped : Stepped r op t) : t.used ≠ 0 ∧ t.data = none := by
  cases op with
  | incrWrite len =>
    simp only [Backed, Classical.not_imp] at unbacked
    obtain ⟨some, fits, bare⟩ := unbacked
    rw [sound.size_eq] at fits
    simp only [Stepped, Ring.step, state?_map, incrWrite_spec sound positive] at stepped
    rw [if_neg (by omega)] at stepped
    cases stepped
    exact ⟨by simp only; omega, Option.not_isSome_iff_eq_none.mp bare⟩
  | _ => exact absurd trivial unbacked

/-- In every run on a ring of non-zero capacity in which `incr_write` counts bytes only where
there is storage, a reader gets what `used()` says and a drain loop comes to its end; the first
`incr_write` that counts bytes without storage leaves a ring that no loop drains. -/
theorem backed_run_drains {start : CircularBuffer} (positive : 0 < size) (made : Made size start)
    (run : Reaches (Guarded Backed Stepped) start r) :
    Drains r ∧ ∀ op t, Stepped r op t → ¬ Backed r op →
      ¬ Drains t ∧ ∀ rounds outputs, drain rounds outputs t = none := by
  have whole : Whole size r := run.keeps (whole_new made) fun _ _ _ holds taken =>
    whole_step holds positive taken.1 taken.2
  refine ⟨(drains_iff_stored whole.1).mpr whole.2, fun op t stepped unbacked => ?_⟩
  obtain ⟨full, bare⟩ := unbacked_step whole.1 positive unbacked stepped
  refine ⟨fun drains => ?_, drain_stuck full bare⟩
  have stored := (drains_iff_stored (sound_step whole.1 stepped)).mp drains (Nat.pos_of_ne_zero full)
  rw [bare] at stored
  exact Bool.false_ne_true stored

instance decidableBacked (r : CircularBuffer) : (op : RingOp) → Decidable (Backed r op)
  | .incrWrite len => inferInstanceAs (Decidable (0 < len → len ≤ r.size - r.used → r.data.isSome))
  | .write _ | .read _ | .peek _ | .readPtrs | .writePtr .. | .writeSlicesMut .. | .incrRead _
  | .clear | .free => .isTrue trivial

theorem backed_run_drains_six :
    ∃ start r, CircularBuffer.new 6 = .ok start ∧
      exec (fun r op => (Ring.step op r).state?) start
        [.write [1, 2, 3, 4, 5], .read [0, 0], .incrWrite 2, .incrWrite 9, .incrRead 1] = some r ∧
      r.used = 4 ∧ Drains r := by
  obtain ⟨start, r, made, script, used⟩ : ∃ start r, CircularBuffer.new 6 = .ok start ∧
      exec (fun r op => (Ring.step op r).state?) start
        [.write [1, 2, 3, 4, 5], .read [0, 0], .incrWrite 2, .incrWrite 9, .incrRead 1] = some r ∧
      r.used = 4 := ⟨_, _, rfl, rfl, rfl⟩
  cases made
  exact ⟨_, r, rfl, script, used,
    (backed_run_drains (show 0 < 6 by decide) (.new rfl) (.of_script script (by decide))).1⟩

/-- Four bytes counted in a fresh ring: nothing can be read, and the loop never ends. -/
theorem counted_without_storage :
    ∃ start r, CircularBuffer.new 8 = .ok start ∧ Ring.step (.incrWrite 4) start = .ok .unit r ∧
      r.used = 4 ∧ CircularBuffer.read [0] r = .ok (0, [0]) r ∧ r.readPtrs = .ok ([], []) ∧
      ¬ Drains r ∧ ∀ rounds outputs, drain rounds outputs r = none := by
  refine ⟨_, _, rfl, rfl, rfl, rfl, rfl, fun drains => ?_, drain_stuck (by decide) rfl⟩
  obtain ⟨first, second, slices, total⟩ := drains.slices
  cases slices
  exact absurd total (by decide)

end

end Secbuf.RingDrain
