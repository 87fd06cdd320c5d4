import Secbuf.RingDrain

/-! The zero-copy interface of a ring against the copying one. Filling the slices that are handed
out and moving the cursor over them is a `write`; taking bytes off the slices that are shown and
moving the cursor over them is a `read`. -/

namespace Secbuf.RingSlices
open Calls Splice RingWindow Storage BufferCore Secbuf.Ring CircularBuffer RingFifo RingCursors
  RingDrain

/-- `write_slices_mut(data.len())`, both slices filled in order, then `incr_write`. -/
def writeThroughSlices (data : List UInt8) : RingM Unit := do
  let (head, tail) ← writeSlicesMut data.length
  fillRegion head 0 (data.take head.length)
  fillRegion tail 0 (data.drop head.length)
  incrWrite data.length

/-- `write_ptr(data.len())`, the slice filled, then `incr_write`. -/
def writeThroughPtr (data : List UInt8) : RingM Unit := do
  let region ← writePtr data.length
  fillRegion region 0 data
  incrWrite data.length

section
variable {size : Nat} {r t : CircularBuffer}

theorem fillRegion_inside {buffer src : List UInt8} {region : Buffer.Region}
    (here : r.data = some buffer) (room : src.length ≤ region.length)
    (inside : region.start + src.length ≤ buffer.length) :
    fillRegion region 0 src r = .ok () { r with data := some (splice buffer region.start src) } := by
  unfold fillRegion
  rw [if_neg (by omega)]
  split_ifs with nothing
  · rw [List.eq_nil_of_length_eq_zero nothing, splice_nil, ← here]
  · apply attempt_ok
    simp only [here, unwrap, ok_bind, Nat.add_zero]
    rw [copyTo_inside (by omega) inside (by omega), ok_bind]

theorem incrWrite_laid (sound : Sound size r) {buffer data after : List UInt8}
    (here : r.ensureAllocated.data = some buffer) (nonempty : 0 < data.length)
    (fits : data.length ≤ size - r.used) (length : after.length = buffer.length) :
    incrWrite data.length { r.ensureAllocated with data := some after } =
      .ok () { r.ensureAllocated with
        data := some after
        writePos := (r.writePos + data.length) % size
        used := r.used + data.length } := by
  obtain ⟨made, -⟩ := sound.allocated
  have width := made.length_eq buffer here
  have laid : Sound size { r.ensureAllocated with data := some after } := by
    refine ⟨made.size_eq, made.small, made.pow2, made.read_lt, made.read_zero, made.used_le,
      made.write_eq, ?_⟩
    intro other same
    cases same
    exact length.trans width
  rw [incrWrite_spec laid (by omega)]
  simp only [ensureAllocated_used, ensureAllocated_writePos]
  rw [if_neg (by omega)]

theorem writeThroughSlices_eq (sound : Sound size r) (positive : 0 < size) (data : List UInt8) :
    writeThroughSlices data r = (CircularBuffer.write data).map (fun _ => ()) r := by
  have spec := writeSlicesMut_spec sound data.length
  have cursor := sound.write_le
  unfold writeThroughSlices
  by_cases empty : data.length = 0
  · obtain rfl := List.eq_nil_of_length_eq_zero empty
    have still : (r.writePos + 0) % size = r.writePos := by
      rw [sound.write_eq, Nat.add_zero, Nat.mod_mod]
    rw [if_pos empty] at spec
    rw [bind_of_ok spec]
    change incrWrite 0 r = .ok () r
    rw [incrWrite_spec sound positive, if_neg (by omega), still, Nat.add_zero]
  · rw [if_neg empty] at spec
    by_cases exceeds : data.length > size - r.used
    · rw [if_pos exceeds] at spec
      rw [bind_of_err spec, Call.map, write_exceeds sound exceeds]
    · obtain ⟨made, buffer, here⟩ := sound.allocated
      have width := made.length_eq buffer here
      have fits : data.length ≤ size - r.used := by omega
      have nonempty : 0 < data.length := by omega
      rw [if_neg exceeds] at spec
      rw [Call.map, write_fits sound here nonempty fits]
      by_cases short : data.length ≤ size - r.writePos
      · -- one slice: all of the data goes into it, and nothing into the empty one
        have filled : fillRegion ⟨r.writePos, data.length⟩ 0 data r.ensureAllocated =
            .ok () { r.ensureAllocated with data := some (splice buffer r.writePos data) } :=
          fillRegion_inside here le_rfl (by simp only; omega)
        rw [if_pos short] at spec
        rw [bind_of_ok spec]
        simp only [List.take_length, List.drop_length]
        rw [bind_of_ok filled, bind_of_ok (fillRegion_inside rfl le_rfl (Nat.zero_le _)), splice_nil]
        rw [incrWrite_laid sound here nonempty fits (length_splice _ _ _ (by omega)),
          overlay, if_pos (by omega)]
      · -- two slices: up to the end of the storage, and the rest at its front
        have headLength : (data.take (size - r.writePos)).length = size - r.writePos := by
          rw [List.length_take]
          omega
        have laid := length_splice buffer r.writePos (data.take (size - r.writePos)) (by omega)
        have first : fillRegion ⟨r.writePos, size - r.writePos⟩ 0 (data.take (size - r.writePos))
            r.ensureAllocated = .ok () { r.ensureAllocated with
              data := some (splice buffer r.writePos (data.take (size - r.writePos))) } :=
          fillRegion_inside here (by simp only; omega) (by simp only; omega)
        have second : fillRegion ⟨0, data.length - (size - r.writePos)⟩ 0
            (data.drop (size - r.writePos)) { r.ensureAllocated with
              data := some (splice buffer r.writePos (data.take (size - r.writePos))) } =
            .ok () { r.ensureAllocated with
              data := some (splice (splice buffer r.writePos (data.take (size - r.writePos))) 0
                (data.drop (size - r.writePos))) } :=
          fillRegion_inside rfl (by simp only [List.length_drop]; omega)
            (by simp only [List.length_drop]; omega)
        rw [if_neg short] at spec
        rw [bind_of_ok spec]
        simp only
        rw [bind_of_ok first, bind_of_ok second]
        rw [incrWrite_laid sound here nonempty fits
            (by rw [length_splice _ _ _ (by simp only [List.length_drop]; omega), laid]),
          overlay, if_neg (by omega), width]

theorem writeThroughPtr_eq (sound : Sound size r) {data : List UInt8} (nonempty : 0 < data.length)
    (fits : data.length ≤ size - r.used) (inside : r.writePos + data.length ≤ size) :
    writeThroughPtr data r = (CircularBuffer.write data).map (fun _ => ()) r := by
  obtain ⟨made, buffer, here⟩ := sound.allocated
  have width := made.length_eq buffer here
  have spec := writePtr_spec sound data.length
  have filled : fillRegion ⟨r.writePos, data.length⟩ 0 data r.ensureAllocated =
      .ok () { r.ensureAllocated with data := some (splice buffer r.writePos data) } :=
    fillRegion_inside here le_rfl (by simp only; omega)
  rw [if_neg (by omega), if_neg (by omega)] at spec
  unfold writeThroughPtr
  rw [bind_of_ok spec, bind_of_ok filled, Call.map, write_fits sound here nonempty fits]
  rw [incrWrite_laid sound here nonempty fits (length_splice _ _ _ (by omega)), overlay,
    if_pos (by omega)]

theorem write_accepts_iff (sound : Sound size r) (data : List UInt8) :
    (∃ n after, CircularBuffer.write data r = .ok n after) ↔ data.length ≤ size - r.used := by
  by_cases fits : data.length ≤ size - r.used
  · refine iff_of_true ?_ fits
    by_cases empty : data.length = 0
    · exact ⟨0, r, by rw [CircularBuffer.write, if_pos empty]⟩
    · obtain ⟨-, buffer, here⟩ := sound.allocated
      exact ⟨_, _, write_fits sound here (Nat.pos_of_ne_zero empty) fits⟩
  · refine iff_of_false ?_ fits
    rintro ⟨n, after, done⟩
    rw [write_exceeds sound (by omega)] at done
    cases done

theorem writeSlicesMut_accepts (sound : Sound size r) (len : Nat) :
    (∃ slices after, writeSlicesMut len r = .ok slices after) ↔ len ≤ size - r.used := by
  rw [writeSlicesMut_spec sound]
  split_ifs <;> simp <;> omega

theorem writeSlicesMut_total (sound : Sound size r) {len : Nat} {head tail : Buffer.Region}
    (handed : writeSlicesMut len r = .ok (head, tail) t) : head.length + tail.length = len := by
  rw [writeSlicesMut_spec sound] at handed
  split_ifs at handed with nothing
  · cases handed
    exact nothing.symm
  · cases handed
    rfl
  · cases handed
    simp only
    omega

theorem writePtr_accepts (sound : Sound size r) (len : Nat) :
    (∃ region after, writePtr len r = .ok region after) ↔
      len ≤ size - r.used ∧ r.writePos + len ≤ size := by
  rw [writePtr_spec sound]
  split_ifs <;> simp <;> omega

theorem writePtr_handed (sound : Sound size r) {len : Nat} {region : Buffer.Region}
    (handed : writePtr len r = .ok region t) :
    region = ⟨r.writePos, len⟩ ∧ len ≤ size - r.used ∧ r.writePos + len ≤ size ∧
      (0 < len → writeSlicesMut len r = .ok (region, ⟨0, 0⟩) t) := by
  rw [writePtr_spec sound] at handed
  split_ifs at handed with exceeds crosses
  cases handed
  refine ⟨rfl, by omega, by omega, fun positive => ?_⟩
  rw [writeSlicesMut_spec sound, if_neg (by omega), if_neg (by omega), if_pos (by omega)]

theorem read_shown (whole : Whole size r) (positive : 0 < size) {n : Nat} (enough : n ≤ r.used) :
    ∃ first second after, r.readPtrs = .ok (first, second) ∧ incrRead n r = .ok () after ∧
      ∀ output, output.length = n →
        CircularBuffer.read output r = .ok (n, (first ++ second).take n) after := by
  have rep := whole.1.represents whole.2
  have used := rep.used_eq
  obtain ⟨first, second, slices, shown⟩ := readPtrs_spec rep
  have moved := incrRead_spec whole.1 positive n
  rw [if_neg (by omega)] at moved
  refine ⟨first, second, _, slices, moved, fun output length => ?_⟩
  by_cases empty : r.used = 0
  · obtain rfl : n = 0 := by omega
    obtain rfl := List.eq_nil_of_length_eq_zero length
    have still : (r.readPos + 0) % size = r.readPos := Nat.mod_eq_of_lt (whole.1.read_lt positive)
    have nothing : CircularBuffer.read [] r = .ok (0, []) r := by simp [CircularBuffer.read, empty]
    rw [List.take_zero, nothing, still, Nat.sub_zero]
  · obtain ⟨buffer, here⟩ := Option.isSome_iff_exists.mp (whole.2 (Nat.pos_of_ne_zero empty))
    have copied := copyOut_spec rep here (Nat.pos_of_ne_zero empty) output
    have cursor := whole.1.read_lt positive
    have small := whole.1.small
    have wrapped : wrap r.readPos n r.size r.isPow2 = .ok ((r.readPos + n) % size) := by
      have bound := whole.1.used_le
      rw [whole.1.size_eq]
      exact wrap_eq positive whole.1.pow2 (by simp only [MAX_CBUF_SIZE] at small; omega)
    have front : min output.length (contents r).length = n := by omega
    rw [front, length, List.drop_eq_nil_of_le length.le, List.append_nil] at copied
    simp only [CircularBuffer.read, empty, decide_false, here]
    apply attempt_ok
    simp only [copied, ok_bind, wrapped, checkedSub_of_le enough, shown, here]

end

/-! Disciplined use: `incr_write(n)` only right after a region of `n` bytes was filled. -/

/-- A ring and, right after an operation that filled a region, the length of that region. -/
structure Session where
  ring : CircularBuffer
  filled : Option Nat

def filledBy : RingOp → Option Nat
  | .writePtr len _ src => if src.length = len then some len else none
  | .writeSlicesMut len first second =>
    if first.length + second.length = len then some len else none
  | _ => none

def next (s : Session) (op : RingOp) : Option Session :=
  match Ring.step op s.ring with
  | .ok _ ring => some ⟨ring, filledBy op⟩
  | .err _ ring => some ⟨ring, none⟩
  | .fault _ => none

def Disciplined (s : Session) : RingOp → Prop
  | .incrWrite len => s.filled = some len
  | _ => True

structure Kept (size : Nat) (s : Session) : Prop where
  whole : Whole size s.ring
  backed : ∀ len, s.filled = some len → 0 < len → s.ring.data.isSome

section
variable {size : Nat} {s t : Session}

/-- A region of any length but zero is only handed out from storage. -/
theorem handed_stored {r u : CircularBuffer} (sound : Sound size r) {op : RingOp} {reply : RingReply}
    (done : Ring.step op r = .ok reply u) {len : Nat} (filled : filledBy op = some len)
    (positive : 0 < len) : u.data.isSome := by
  obtain ⟨made, buffer, here⟩ := sound.allocated
  have there : r.ensureAllocated.data.isSome := by rw [here]; rfl
  cases op with
  | writePtr n offset src =>
    obtain ⟨region, middle, handed, later⟩ := bind_ok.mp done
    have stored : middle.data.isSome := by
      rw [writePtr_spec sound] at handed
      split_ifs at handed
      cases handed
      exact there
    exact keeps_fill stored_fillRegion region offset src middle u stored
      (congrArg Outcome.state? later)
  | writeSlicesMut n first second =>
    simp only [filledBy] at filled
    split_ifs at filled with total
    cases filled
    obtain ⟨⟨head, tail⟩, middle, handed, later⟩ := bind_ok.mp done
    have stored : middle.data.isSome := by
      rw [writeSlicesMut_spec sound, if_neg (by omega)] at handed
      split_ifs at handed
      · cases handed
        exact there
      · cases handed
        exact there
    exact keeps_fill_both stored_fillRegion head tail first second middle u stored
      (congrArg Outcome.state? later)
  | _ => simp [filledBy] at filled

theorem kept_next (kept : Kept size s) (positive : 0 < size) {op : RingOp}
    (disciplined : Disciplined s op) (taken : next s op = some t) : Kept size t := by
  have backed : Backed s.ring op := by
    cases op with
    | incrWrite len => exact fun some _ => kept.backed len disciplined some
    | _ => trivial
  unfold next at taken
  cases done : Ring.step op s.ring with
  | ok reply ring =>
    rw [done] at taken
    cases taken
    refine ⟨whole_step kept.whole positive backed (by rw [Stepped, done]; rfl), ?_⟩
    exact fun len filled some => handed_stored kept.whole.1 done filled some
  | err error ring =>
    rw [done] at taken
    cases taken
    refine ⟨whole_step kept.whole positive backed (by rw [Stepped, done]; rfl), ?_⟩
    intro len filled
    cases filled
  | fault reason =>
    rw [done] at taken
    cases taken

/-- On every ring of non-zero capacity, after any disciplined use: filling what
`write_slices_mut` hands out and then `incr_write` leave what `write` leaves, refusals included;
`write_ptr` hands out the same region and refuses only for lack of room or a crossing; and the
front of what `read_ptrs` shows with `incr_read` is what `read` gives. -/
theorem slices_agree {start : CircularBuffer} (positive : 0 < size) (made : Made size start)
    (run : Reaches (Guarded Disciplined fun s op t => next s op = some t) ⟨start, none⟩ s) :
    (∀ data,
      ((∃ slices after, writeSlicesMut data.length s.ring = .ok slices after) ↔
        ∃ n after, CircularBuffer.write data s.ring = .ok n after) ∧
      (∀ head tail after, writeSlicesMut data.length s.ring = .ok (head, tail) after →
        head.length + tail.length = data.length) ∧
      writeThroughSlices data s.ring = (CircularBuffer.write data).map (fun _ => ()) s.ring) ∧
    (∀ data,
      ((∃ region after, writePtr data.length s.ring = .ok region after) ↔
        data.length ≤ size - s.ring.used ∧ s.ring.writePos + data.length ≤ size) ∧
      ∀ region after, writePtr data.length s.ring = .ok region after →
        region = ⟨s.ring.writePos, data.length⟩ ∧ (0 < data.length →
          writeSlicesMut data.length s.ring = .ok (region, ⟨0, 0⟩) after ∧
          writeThroughPtr data s.ring = (CircularBuffer.write data).map (fun _ => ()) s.ring)) ∧
    ∀ n ≤ s.ring.used, ∃ first second after, s.ring.readPtrs = .ok (first, second) ∧
      incrRead n s.ring = .ok () after ∧ ∀ output, output.length = n →
        CircularBuffer.read output s.ring = .ok (n, (first ++ second).take n) after := by
  have kept : Kept size s := run.keeps ⟨whole_new made, nofun⟩ fun _ _ _ holds taken =>
    kept_next holds positive taken.1 taken.2
  have sound := kept.whole.1
  refine ⟨fun data => ⟨?_, ?_, writeThroughSlices_eq sound positive data⟩, fun data => ⟨?_, ?_⟩,
    fun n enough => read_shown kept.whole positive enough⟩
  · rw [writeSlicesMut_accepts sound, write_accepts_iff sound]
  · exact fun head tail after handed => writeSlicesMut_total sound handed
  · exact writePtr_accepts sound data.length
  · intro region after handed
    obtain ⟨same, fits, inside, slices⟩ := writePtr_handed sound handed
    exact ⟨same, fun nonempty => ⟨slices nonempty, writeThroughPtr_eq sound nonempty fits inside⟩⟩

instance decidableDisciplined (s : Session) : (op : RingOp) → Decidable (Disciplined s op)
  | .incrWrite len => inferInstanceAs (Decidable (s.filled = some len))
  | .write _ | .read _ | .peek _ | .readPtrs | .writePtr .. | .writeSlicesMut .. | .incrRead _
  | .clear | .free => .isTrue trivial

theorem slices_agree_five :
    ∃ start s, CircularBuffer.new 5 = .ok start ∧
      exec next ⟨start, none⟩ [.write [1, 2, 3], .incrRead 3, .writeSlicesMut 4 [5, 6] [7, 8],
        .incrWrite 4] = some s ∧
      writeThroughSlices [9] s.ring = (CircularBuffer.write [9]).map (fun _ => ()) s.ring ∧
      ∃ after, CircularBuffer.read [0, 0, 0] s.ring = .ok (3, [5, 6, 7]) after := by
  obtain ⟨start, s, made, script, shown⟩ : ∃ start s, CircularBuffer.new 5 = .ok start ∧
      exec next ⟨start, none⟩ [.write [1, 2, 3], .incrRead 3, .writeSlicesMut 4 [5, 6] [7, 8],
        .incrWrite 4] = some s ∧ s.ring.used = 4 ∧ s.ring.readPtrs = .ok ([5, 6], [7, 8]) :=
    ⟨_, _, rfl, rfl, rfl, rfl⟩
  cases made
  obtain ⟨writes, -, reads⟩ :=
    slices_agree (show 0 < 5 by decide) (.new rfl) (.of_script script (by decide))
  obtain ⟨first, second, after, slices, -, taken⟩ := reads 3 (by omega)
  rw [shown.2] at slices
  cases slices
  exact ⟨_, s, rfl, script, (writes [9]).2.2, after, taken [0, 0, 0] rfl⟩

end

end Secbuf.RingSlices
