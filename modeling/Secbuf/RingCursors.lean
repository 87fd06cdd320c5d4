import Secbuf.RingFifo

/-! The cursors of a ring under any sequence of calls, with `incr_write` and `incr_read` called
out of turn. They stay in range whatever is done, and that is all the slicing needs; only the
remainder by the size of a ring of size zero is left. -/

namespace Secbuf.RingCursors
open Calls Splice RingWindow Storage BufferCore Secbuf.Ring CircularBuffer RingFifo

structure Sound (size : Nat) (r : CircularBuffer) : Prop where
  size_eq : r.size = size
  small : size ≤ MAX_CBUF_SIZE
  pow2 : r.isPow2 = true → size.isPowerOfTwo
  read_lt : 0 < size → r.readPos < size
  read_zero : size = 0 → r.readPos = 0
  used_le : r.used ≤ size
  write_eq : r.writePos = (r.readPos + r.used) % size
  length_eq : ∀ buffer, r.data = some buffer → buffer.length = size

inductive Made (size : Nat) : CircularBuffer → Prop
  | new {r : CircularBuffer} (made : CircularBuffer.new size = .ok r) : Made size r
  | newPow2 {sizeLog2 : Nat} {r : CircularBuffer} (made : CircularBuffer.newPow2 sizeLog2 = .ok r)
      (size_eq : r.size = size) : Made size r

theorem Made.new_eq {size : Nat} {r : CircularBuffer} (made : Made size r) :
    CircularBuffer.new size = .ok r := by
  cases made with
  | new made => exact made
  | newPow2 made size_eq =>
    rename_i sizeLog2
    unfold CircularBuffer.newPow2 at made
    obtain ⟨shifted, shift, made⟩ := ok_of_bind made
    unfold checkedShl at shift
    split_ifs at shift made with small fits
    cases made
    cases shift
    subst size_eq
    have exact_shift : 1 * 2 ^ sizeLog2 % 2 ^ 64 = 2 ^ sizeLog2 := by
      rw [Nat.one_mul]
      exact Nat.mod_eq_of_lt (Nat.pow_lt_pow_right (by decide) small)
    rw [exact_shift] at fits ⊢
    rw [CircularBuffer.new, if_pos fits, decide_eq_true ⟨sizeLog2, rfl⟩]

theorem sound_new {size : Nat} {r : CircularBuffer} (made : CircularBuffer.new size = .ok r) :
    Sound size r := by
  unfold CircularBuffer.new at made
  split_ifs at made with small
  cases made
  exact ⟨rfl, small, of_decide_eq_true, fun positive => positive, fun _ => rfl, Nat.zero_le _,
    (Nat.zero_mod _).symm, nofun⟩

section
variable {size : Nat} {r t : CircularBuffer}

theorem Sound.represents (sound : Sound size r) (stored : 0 < r.used → r.data.isSome) :
    Represents size (contents r) r :=
  ⟨sound.size_eq, sound.small, sound.pow2, sound.read_lt, sound.used_le, sound.write_eq,
    sound.length_eq, stored, rfl⟩

theorem Sound.of_represents {q : List UInt8} (rep : Represents size q r) (positive : 0 < size) :
    Sound size r :=
  ⟨rep.size_eq, rep.small, rep.pow2, rep.read_lt, fun zero => by omega, rep.used_le, rep.write_eq,
    rep.length_eq⟩

theorem Sound.available (sound : Sound size r) : r.available = .ok (size - r.used) := by
  rw [CircularBuffer.available, sound.size_eq, checkedSub_of_le sound.used_le]

theorem Sound.write_le (sound : Sound size r) : r.writePos ≤ size := by
  have zero := sound.read_zero
  have used := sound.used_le
  rw [sound.write_eq]
  by_cases positive : 0 < size
  · exact (Nat.mod_lt _ positive).le
  · exact (Nat.mod_le _ _).trans (by omega)

@[simp] theorem ensureAllocated_used : r.ensureAllocated.used = r.used := by
  unfold ensureAllocated
  split <;> rfl

@[simp] theorem ensureAllocated_size : r.ensureAllocated.size = r.size := by
  unfold ensureAllocated
  split <;> rfl

@[simp] theorem ensureAllocated_readPos : r.ensureAllocated.readPos = r.readPos := by
  unfold ensureAllocated
  split <;> rfl

@[simp] theorem ensureAllocated_writePos : r.ensureAllocated.writePos = r.writePos := by
  unfold ensureAllocated
  split <;> rfl

theorem Sound.allocated (sound : Sound size r) :
    Sound size r.ensureAllocated ∧ ∃ buffer, r.ensureAllocated.data = some buffer := by
  unfold ensureAllocated
  cases data : r.data with
  | some buffer => exact ⟨sound, buffer, data⟩
  | none =>
    refine ⟨⟨sound.size_eq, sound.small, sound.pow2, sound.read_lt, sound.read_zero, sound.used_le,
      sound.write_eq, ?_⟩, _, rfl⟩
    intro buffer same
    cases same
    rw [ByteVec.zeros_length, sound.size_eq]

/-! What each call does, with the cursors in range. -/

theorem write_fits (sound : Sound size r) {buffer data : List UInt8}
    (here : r.ensureAllocated.data = some buffer) (nonempty : 0 < data.length)
    (fits : data.length ≤ size - r.used) :
    CircularBuffer.write data r = .ok data.length { r.ensureAllocated with
      data := some (overlay buffer r.writePos data)
      writePos := (r.writePos + data.length) % size
      used := r.used + data.length } := by
  have rep := sound.allocated.1.represents fun _ => by rw [here]; rfl
  have used := rep.used_eq
  have bound := sound.used_le
  rw [ensureAllocated_used] at used
  have copied := copyIn_eq rep here nonempty (by omega)
  unfold CircularBuffer.write
  rw [if_neg (by omega)]
  simp only [withRoom, sound.available]
  rw [if_neg (by omega), attempt_ok copied]
  simp only [ensureAllocated_used, ensureAllocated_writePos]

theorem write_exceeds (sound : Sound size r) {data : List UInt8}
    (exceeds : size - r.used < data.length) :
    CircularBuffer.write data r = .err .insufficientSpace r := by
  unfold CircularBuffer.write
  rw [if_neg (by omega)]
  simp only [withRoom, sound.available]
  rw [if_pos exceeds]

theorem write_sound (sound : Sound size r) (data : List UInt8) :
    ∃ t, (CircularBuffer.write data r).state? = some t ∧ Sound size t := by
  by_cases empty : data.length = 0
  · exact ⟨r, by simp [CircularBuffer.write, empty], sound⟩
  · by_cases fits : data.length ≤ size - r.used
    · obtain ⟨made, buffer, here⟩ := sound.allocated
      have rep := made.represents fun _ => by rw [here]; rfl
      have used := rep.used_eq
      have bound := sound.used_le
      rw [ensureAllocated_used] at used
      have after := copyIn_represents rep here (Nat.pos_of_ne_zero empty) (by omega)
      simp only [ensureAllocated_used, ensureAllocated_writePos] at after
      rw [write_fits sound here (Nat.pos_of_ne_zero empty) fits]
      exact ⟨_, rfl, .of_represents after (by omega)⟩
    · exact ⟨r, by rw [write_exceeds sound (by omega)]; rfl, sound⟩

theorem read_sound (sound : Sound size r) (output : List UInt8) :
    ∃ t, (CircularBuffer.read output r).state? = some t ∧ Sound size t := by
  by_cases empty : r.used = 0
  · exact ⟨r, by simp [CircularBuffer.read, empty], sound⟩
  · cases data : r.data with
    | none => exact ⟨r, by simp [CircularBuffer.read, empty, data], sound⟩
    | some buffer =>
      have bound := sound.used_le
      obtain ⟨t, copied, after⟩ := read_spec (sound.represents fun _ => by rw [data]; rfl) output
      exact ⟨t, by rw [copied]; rfl, .of_represents after (by omega)⟩

theorem peek_sound (sound : Sound size r) (output : List UInt8) :
    (peek output r).state? = some r := by
  by_cases empty : r.used = 0
  · simp [peek, empty]
  · cases data : r.data with
    | none => simp [peek, empty, data]
    | some buffer =>
      rw [peek_spec (sound.represents fun _ => by rw [data]; rfl) output]
      rfl

theorem readPtrs_sound (sound : Sound size r) : ∃ slices, r.readPtrs = .ok slices := by
  by_cases empty : r.used = 0
  · exact ⟨_, if_pos empty⟩
  · cases data : r.data with
    | none => exact ⟨([], []), by simp [readPtrs, empty, data]⟩
    | some buffer =>
      obtain ⟨first, second, slices, -⟩ :=
        readPtrs_spec (sound.represents fun _ => by rw [data]; rfl)
      exact ⟨_, slices⟩

theorem writePtr_spec (sound : Sound size r) (len : Nat) :
    writePtr len r =
      if len > size - r.used then .err .insufficientSpace r
      else if r.writePos + len > size then
        .err (.invalidState
          "write would cross ring boundary — use write_slices_mut or write()") r
      else .ok ⟨r.writePos, len⟩ r.ensureAllocated := by
  have cursor := sound.write_le
  have small := sound.small
  simp only [writePtr, withRoom, sound.available]
  split_ifs with exceeds crosses
  · rfl
  · have sum : checkedAdd r.writePos len = .ok (r.writePos + len) :=
      if_pos (by simp only [MAX_CBUF_SIZE] at small; omega)
    simp only [sum, sound.size_eq, if_pos crosses]
  · have sum : checkedAdd r.writePos len = .ok (r.writePos + len) :=
      if_pos (by simp only [MAX_CBUF_SIZE] at small; omega)
    obtain ⟨made, buffer, here⟩ := sound.allocated
    have width := made.length_eq buffer here
    simp only [sum, sound.size_eq, if_neg crosses]
    apply attempt_ok
    simp only [here, unwrap, ok_bind, ensureAllocated_writePos]
    rw [sliceOf_inside (by omega) (by omega), ok_bind]

theorem writeSlicesMut_spec (sound : Sound size r) (len : Nat) :
    writeSlicesMut len r =
      if len = 0 then .ok (⟨0, 0⟩, ⟨0, 0⟩) r
      else if len > size - r.used then .err .insufficientSpace r
      else if len ≤ size - r.writePos then
        .ok (⟨r.writePos, len⟩, ⟨0, 0⟩) r.ensureAllocated
      else
        .ok (⟨r.writePos, size - r.writePos⟩, ⟨0, len - (size - r.writePos)⟩)
          r.ensureAllocated := by
  have cursor := sound.write_le
  obtain ⟨made, buffer, here⟩ := sound.allocated
  have width := made.length_eq buffer here
  simp only [writeSlicesMut, withRoom, sound.available]
  split_ifs with nothing exceeds short
  · rfl
  · rfl
  · apply attempt_ok
    simp only [here, unwrap, ok_bind, ensureAllocated_size, ensureAllocated_writePos,
      sound.size_eq, checkedSub_of_le cursor, if_pos short]
    rw [sliceOf_inside (by omega) (by omega), ok_bind]
  · apply attempt_ok
    simp only [here, unwrap, ok_bind, ensureAllocated_size, ensureAllocated_writePos,
      sound.size_eq, checkedSub_of_le cursor, if_neg short]
    rw [sliceOf_inside (by omega) (by omega), ok_bind, sliceOf_inside (by omega) le_rfl, ok_bind,
      sliceOf_inside (by omega) (by simp only [List.length_take, List.length_drop]; omega), ok_bind,
      sliceOf_inside (by omega) (by simp only [List.length_take, List.length_drop]; omega), ok_bind]

theorem incrWrite_spec (sound : Sound size r) (positive : 0 < size) (len : Nat) :
    incrWrite len r =
      if len > size - r.used then .err .insufficientSpace r
      else .ok () { r with writePos := (r.writePos + len) % size, used := r.used + len } := by
  have cursor := sound.write_le
  have used := sound.used_le
  have small := sound.small
  simp only [incrWrite, withRoom, sound.available]
  split_ifs with exceeds
  · rfl
  · apply attempt_ok
    rw [sound.size_eq, wrap_eq positive sound.pow2 (by simp only [MAX_CBUF_SIZE] at small; omega),
      ok_bind, checkedAdd, if_pos (by simp only [MAX_CBUF_SIZE] at small; omega), ok_bind]

theorem incrRead_spec (sound : Sound size r) (positive : 0 < size) (len : Nat) :
    incrRead len r =
      if len > r.used then .err .bufferOverflow r
      else .ok () { r with readPos := (r.readPos + len) % size, used := r.used - len } := by
  have cursor := sound.read_lt positive
  have used := sound.used_le
  have small := sound.small
  unfold incrRead
  split_ifs with exceeds
  · rfl
  · apply attempt_ok
    rw [sound.size_eq, wrap_eq positive sound.pow2 (by simp only [MAX_CBUF_SIZE] at small; omega),
      ok_bind, checkedSub_of_le (by omega), ok_bind]

theorem incr_empty (sound : Sound 0 r) (len : Nat) :
    incrWrite len r = (if len > 0 then .err .insufficientSpace r else .fault .panic) ∧
      incrRead len r = if len > 0 then .err .bufferOverflow r else .fault .panic := by
  have used : r.used = 0 := Nat.le_zero.mp sound.used_le
  have start := sound.read_zero rfl
  have write_pos : r.writePos = 0 := Nat.le_zero.mp sound.write_le
  have odd : r.isPow2 = false := by
    by_contra even
    obtain ⟨k, zero⟩ := sound.pow2 (by simpa using even)
    exact absurd zero.symm (Nat.two_pow_pos k).ne'
  simp only [incrWrite, incrRead, withRoom, sound.available, used, Nat.sub_zero]
  split_ifs with some
  · exact ⟨rfl, rfl⟩
  · obtain rfl : len = 0 := by omega
    simp only [Call.attempt, wrap, sound.size_eq, start, write_pos, odd]
    exact ⟨rfl, rfl⟩

/-- On a ring of no size neither cursor moves: the call is refused, or it does not come back. -/
theorem incrWrite_cases (sound : Sound size r) {len : Nat}
    (done : (incrWrite len r).state? = some t) :
    t = r ∨ 0 < size ∧ len ≤ size - r.used ∧
      t = { r with writePos := (r.writePos + len) % size, used := r.used + len } := by
  by_cases positive : 0 < size
  · rw [incrWrite_spec sound positive] at done
    split_ifs at done with exceeds
    · cases done
      exact Or.inl rfl
    · cases done
      exact Or.inr ⟨positive, by omega, rfl⟩
  · obtain rfl : size = 0 := by omega
    rw [(incr_empty sound len).1] at done
    split_ifs at done
    · cases done
      exact Or.inl rfl
    · cases done

theorem incrRead_cases (sound : Sound size r) {len : Nat}
    (done : (incrRead len r).state? = some t) :
    t = r ∨ 0 < size ∧ len ≤ r.used ∧
      t = { r with readPos := (r.readPos + len) % size, used := r.used - len } := by
  by_cases positive : 0 < size
  · rw [incrRead_spec sound positive] at done
    split_ifs at done with exceeds
    · cases done
      exact Or.inl rfl
    · cases done
      exact Or.inr ⟨positive, by omega, rfl⟩
  · obtain rfl : size = 0 := by omega
    rw [(incr_empty sound len).2] at done
    split_ifs at done
    · cases done
      exact Or.inl rfl
    · cases done

theorem incrWrite_sound (sound : Sound size r) {len : Nat}
    (done : (incrWrite len r).state? = some t) : Sound size t := by
  rcases incrWrite_cases sound done with rfl | ⟨positive, fits, rfl⟩
  · exact sound
  · have used := sound.used_le
    refine ⟨sound.size_eq, sound.small, sound.pow2, sound.read_lt, sound.read_zero,
      by simp only; omega, ?_, sound.length_eq⟩
    simp only [sound.write_eq, Nat.mod_add_mod, Nat.add_assoc]

theorem incrRead_sound (sound : Sound size r) {len : Nat}
    (done : (incrRead len r).state? = some t) : Sound size t := by
  rcases incrRead_cases sound done with rfl | ⟨positive, enough, rfl⟩
  · exact sound
  · have used := sound.used_le
    refine ⟨sound.size_eq, sound.small, sound.pow2, fun _ => Nat.mod_lt _ positive,
      fun zero => by omega, by simp only; omega, ?_, sound.length_eq⟩
    simp only [sound.write_eq, Nat.mod_add_mod]
    congr 1
    omega

theorem fillRegion_sound (region : Buffer.Region) (offset : Nat) (src : List UInt8) :
    (fillRegion region offset src).Keeps (Sound size) := by
  intro r t sound done
  rcases fillRegion_cases done with rfl | ⟨buffer, after, here, length, rfl⟩
  · exact sound
  · refine ⟨sound.size_eq, sound.small, sound.pow2, sound.read_lt, sound.read_zero, sound.used_le,
      sound.write_eq, ?_⟩
    intro other same
    cases same
    rw [length, sound.length_eq buffer here]

theorem writePtr_sound (sound : Sound size r) (len : Nat) :
    ∃ t, (writePtr len r).state? = some t ∧ Sound size t := by
  rw [writePtr_spec sound]
  split_ifs
  · exact ⟨r, rfl, sound⟩
  · exact ⟨r, rfl, sound⟩
  · exact ⟨_, rfl, sound.allocated.1⟩

theorem writeSlicesMut_sound (sound : Sound size r) (len : Nat) :
    ∃ t, (writeSlicesMut len r).state? = some t ∧ Sound size t := by
  rw [writeSlicesMut_spec sound]
  split_ifs
  · exact ⟨r, rfl, sound⟩
  · exact ⟨r, rfl, sound⟩
  · exact ⟨_, rfl, sound.allocated.1⟩
  · exact ⟨_, rfl, sound.allocated.1⟩

theorem keeps_sound {α : Type} {call : RingM α}
    (comes : ∀ r, Sound size r → ∃ t, (call r).state? = some t ∧ Sound size t) :
    call.Keeps (Sound size) := by
  intro r t sound done
  obtain ⟨other, left, after⟩ := comes r sound
  rw [left] at done
  cases done
  exact after

theorem sound_clear (sound : Sound size r) : Sound size r.clear :=
  ⟨sound.size_eq, sound.small, sound.pow2, fun positive => positive, fun _ => rfl, Nat.zero_le _,
    (Nat.zero_mod _).symm, sound.length_eq⟩

theorem sound_free (sound : Sound size r) : Sound size r.free :=
  ⟨sound.size_eq, sound.small, sound.pow2, fun positive => positive, fun _ => rfl, Nat.zero_le _,
    (Nat.zero_mod _).symm, nofun⟩

end

def Stepped (r : CircularBuffer) (op : RingOp) (t : CircularBuffer) : Prop :=
  (Ring.step op r).state? = some t

section
variable {size : Nat} {r t : CircularBuffer}

theorem sound_step (sound : Sound size r) {op : RingOp} (stepped : Stepped r op t) :
    Sound size t := by
  cases op with
  | write data =>
    simp only [Stepped, Ring.step, state?_map] at stepped
    exact keeps_sound (fun _ sound => write_sound sound data) r t sound stepped
  | read output =>
    simp only [Stepped, Ring.step, state?_map] at stepped
    exact keeps_sound (fun _ sound => read_sound sound output) r t sound stepped
  | peek output =>
    simp only [Stepped, Ring.step, state?_map, peek_sound sound, Option.some.injEq] at stepped
    exact stepped ▸ sound
  | readPtrs =>
    simp only [Stepped, Ring.step] at stepped
    obtain ⟨_, done⟩ := attempt_state?.mp stepped
    obtain ⟨_, _, done⟩ := ok_of_bind done
    cases done
    exact sound
  | writePtr len offset src =>
    have hands : (writePtr len).Keeps (Sound size) := keeps_sound fun _ sound => writePtr_sound sound len
    exact keeps_writePtr hands fillRegion_sound offset src r t sound stepped
  | writeSlicesMut len first second =>
    have hands : (writeSlicesMut len).Keeps (Sound size) :=
      keeps_sound fun _ sound => writeSlicesMut_sound sound len
    exact keeps_writeSlicesMut hands fillRegion_sound first second r t sound stepped
  | incrWrite len =>
    simp only [Stepped, Ring.step, state?_map] at stepped
    exact incrWrite_sound sound stepped
  | incrRead len =>
    simp only [Stepped, Ring.step, state?_map] at stepped
    exact incrRead_sound sound stepped
  | clear =>
    cases stepped
    exact sound_clear sound
  | free =>
    cases stepped
    exact sound_free sound

theorem sound_run (sound : Sound size r) (run : Reaches Stepped r t) : Sound size t :=
  run.keeps sound fun _ _ _ holds stepped => sound_step holds stepped

/-- The call of an operation by itself; what its caller then stores through the slices it was
handed is the caller's own affair. -/
def callOf : RingOp → RingM Unit
  | .write data => (CircularBuffer.write data).map fun _ => ()
  | .read output => (CircularBuffer.read output).map fun _ => ()
  | .peek output => (peek output).map fun _ => ()
  | .readPtrs => Call.attempt fun r => do
    let _ ← r.readPtrs
    .ok ((), r)
  | .writePtr len _ _ => (writePtr len).map fun _ => ()
  | .writeSlicesMut len _ _ => (writeSlicesMut len).map fun _ => ()
  | .incrWrite len => incrWrite len
  | .incrRead len => incrRead len
  | .clear => Call.modify clear
  | .free => Call.modify free

/-- The call does not come back: an index out of range, a sum or a difference that overflows, or
a remainder by zero. -/
def Panics (op : RingOp) (r : CircularBuffer) : Prop := (callOf op r).state? = none

theorem not_panics {op : RingOp} (comes : ∃ t, (callOf op r).state? = some t) : ¬ Panics op r := by
  obtain ⟨t, left⟩ := comes
  rw [Panics, left]
  exact Option.some_ne_none t

theorem panics_iff (sound : Sound size r) (op : RingOp) :
    Panics op r ↔ size = 0 ∧ (op = .incrWrite 0 ∨ op = .incrRead 0) := by
  cases op with
  | write data =>
    obtain ⟨t, left, -⟩ := write_sound sound data
    exact iff_of_false (not_panics ⟨t, by simpa [callOf] using left⟩) (by simp)
  | read output =>
    obtain ⟨t, left, -⟩ := read_sound sound output
    exact iff_of_false (not_panics ⟨t, by simpa [callOf] using left⟩) (by simp)
  | peek output =>
    exact iff_of_false (not_panics ⟨r, by simpa [callOf] using peek_sound sound output⟩) (by simp)
  | readPtrs =>
    obtain ⟨slices, done⟩ := readPtrs_sound sound
    have left : (callOf .readPtrs r).state? = some r := by
      simp only [callOf]
      exact attempt_state?.mpr ⟨(), by rw [done, ok_bind]⟩
    exact iff_of_false (not_panics ⟨r, left⟩) (by simp)
  | writePtr len offset src =>
    obtain ⟨t, left, -⟩ := writePtr_sound sound len
    exact iff_of_false (not_panics ⟨t, by simpa [callOf] using left⟩) (by simp)
  | writeSlicesMut len first second =>
    obtain ⟨t, left, -⟩ := writeSlicesMut_sound sound len
    exact iff_of_false (not_panics ⟨t, by simpa [callOf] using left⟩) (by simp)
  | incrWrite len =>
    by_cases positive : 0 < size
    · simp only [Panics, callOf, incrWrite_spec sound positive]
      split_ifs <;> simp <;> omega
    · obtain rfl : size = 0 := by omega
      simp only [Panics, callOf, (incr_empty sound len).1]
      split_ifs <;> simp <;> omega
  | incrRead len =>
    by_cases positive : 0 < size
    · simp only [Panics, callOf, incrRead_spec sound positive]
      split_ifs <;> simp <;> omega
    · obtain rfl : size = 0 := by omega
      simp only [Panics, callOf, (incr_empty sound len).2]
      split_ifs <;> simp <;> omega
  | clear => exact iff_of_false (not_panics ⟨_, rfl⟩) (by simp)
  | free => exact iff_of_false (not_panics ⟨_, rfl⟩) (by simp)

/-- On a ring of any accepted size, after any operations, the one thing that panics is
`incr_write(0)` or `incr_read(0)` where the size is zero. -/
theorem ring_panics_iff {start : CircularBuffer} (made : CircularBuffer.new size = .ok start)
    (run : Reaches Stepped start r) :
    (∀ op, Panics op r ↔ size = 0 ∧ (op = .incrWrite 0 ∨ op = .incrRead 0)) ∧
      r.available = .ok (size - r.used) := by
  have sound := sound_run (sound_new made) run
  exact ⟨panics_iff sound, sound.available⟩

theorem ring_panics_iff_three :
    ∃ start r, CircularBuffer.new 3 = .ok start ∧
      exec (fun r op => (Ring.step op r).state?) start
        [.incrWrite 2, .incrRead 1, .write [7, 8], .incrRead 3] = some r ∧
      ∀ op, ¬ Panics op r := by
  obtain ⟨start, r, made, script⟩ : ∃ start r, CircularBuffer.new 3 = .ok start ∧
      exec (fun r op => (Ring.step op r).state?) start
        [.incrWrite 2, .incrRead 1, .write [7, 8], .incrRead 3] = some r := ⟨_, _, rfl, rfl⟩
  refine ⟨start, r, made, script, fun op panics => ?_⟩
  exact absurd (((ring_panics_iff made (.of_exec script)).1 op).mp panics).1 (by decide)

/-- A size of zero is accepted, and `incr_write(0)` on it divides by zero. -/
theorem empty_ring_panics :
    ∃ r, CircularBuffer.new 0 = .ok r ∧ Panics (.incrWrite 0) r ∧ Panics (.incrRead 0) r :=
  ⟨_, rfl, rfl, rfl⟩

end

end Secbuf.RingCursors
