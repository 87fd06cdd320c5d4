import Secbuf.Ring
import Secbuf.RingWindow

/-! The ring against a bounded queue of bytes. The queue is what a reader would be given, the
window of `used` bytes from the read cursor on; the write cursor is kept right behind it. -/

namespace Secbuf.RingFifo
open Calls Splice RingWindow Storage BufferCore Secbuf.Ring CircularBuffer

/-- The bytes in the ring, oldest first. -/
def contents (r : CircularBuffer) : List UInt8 :=
  match r.data with
  | some buffer => window buffer r.readPos r.used
  | none => []

/-- The ring of `size` bytes stands for the queue `q`. -/
structure Represents (size : Nat) (q : List UInt8) (r : CircularBuffer) : Prop where
  size_eq : r.size = size
  small : size ≤ MAX_CBUF_SIZE
  pow2 : r.isPow2 = true → size.isPowerOfTwo
  read_lt : 0 < size → r.readPos < size
  used_le : r.used ≤ size
  write_eq : r.writePos = (r.readPos + r.used) % size
  length_eq : ∀ buffer, r.data = some buffer → buffer.length = size
  stored : 0 < r.used → r.data.isSome
  contents_eq : contents r = q

theorem Represents.used_eq {size : Nat} {q : List UInt8} {r : CircularBuffer}
    (rep : Represents size q r) : r.used = q.length := by
  rw [← rep.contents_eq, contents]
  cases data : r.data with
  | some buffer =>
    have length := rep.length_eq buffer data
    have used := rep.used_le
    exact (length_window _ _ _ (by omega)).symm
  | none =>
    have stored := rep.stored
    rw [data] at stored
    by_contra some
    exact absurd (stored (Nat.pos_of_ne_zero fun zero => some (by rw [zero]; rfl))) (by simp)

theorem wrap_eq {pos delta size : Nat} {isPow2 : Bool} (positive : 0 < size)
    (pow2 : isPow2 = true → size.isPowerOfTwo) (small : pos + delta < 2 ^ 64) :
    wrap pos delta size isPow2 = .ok ((pos + delta) % size) := by
  unfold wrap
  rw [checkedAdd, if_pos small, ok_bind]
  cases isPow2 with
  | true =>
    obtain ⟨k, rfl⟩ := pow2 rfl
    have mask : checkedSub (2 ^ k) 1 = .ok (2 ^ k - 1) := if_pos positive
    simp only [if_true, mask, ok_bind, Nat.and_two_pow_sub_one_eq_mod]
  | false =>
    have divides : checkedRem (pos + delta) size = .ok ((pos + delta) % size) :=
      if_neg (by omega)
    simp only [Bool.false_eq_true, if_false, divides]

theorem checkedSub_of_le {a b : Nat} (le : b ≤ a) : checkedSub a b = .ok (a - b) := if_pos le

theorem sliceOf_inside {buffer : List UInt8} {low high : Nat} (ordered : low ≤ high)
    (inside : high ≤ buffer.length) :
    sliceOf buffer low high = .ok ((buffer.drop low).take (high - low)) := if_pos ⟨ordered, inside⟩

theorem copyTo_inside {buffer src : List UInt8} {low high : Nat} (ordered : low ≤ high)
    (inside : high ≤ buffer.length) (width : src.length = high - low) :
    copyTo buffer low high src = .ok (splice buffer low src) := if_pos ⟨ordered, inside, width⟩

section
variable {size : Nat} {q : List UInt8} {r : CircularBuffer}

theorem Represents.available (rep : Represents size q r) :
    r.available = .ok (size - q.length) := by
  have used := rep.used_le
  rw [CircularBuffer.available, rep.size_eq, checkedSub_of_le used, rep.used_eq]

theorem Represents.allocated (rep : Represents size q r) :
    Represents size q r.ensureAllocated ∧ ∃ buffer, r.ensureAllocated.data = some buffer := by
  unfold ensureAllocated
  cases data : r.data with
  | some buffer => exact ⟨rep, buffer, data⟩
  | none =>
    have empty : q = [] := by
      rw [← rep.contents_eq, contents, data]
    have unused : r.used = 0 := by rw [rep.used_eq, empty]; rfl
    refine ⟨⟨rep.size_eq, rep.small, rep.pow2, rep.read_lt, rep.used_le, rep.write_eq, ?_, ?_, ?_⟩,
      _, rfl⟩
    · intro buffer same
      cases same
      rw [ByteVec.zeros_length, rep.size_eq]
    · exact fun _ => rfl
    · rw [empty]
      simp only [contents, unused, window_zero]

/-- The two-segment copy of `write`, whichever way it splits. -/
theorem copyIn_eq (rep : Represents size q r) {buffer data : List UInt8}
    (here : r.data = some buffer) (nonempty : 0 < data.length)
    (fits : q.length + data.length ≤ size) :
    copyIn data r = .ok (data.length, { r with
      data := some (overlay buffer r.writePos data)
      writePos := (r.writePos + data.length) % size
      used := r.used + data.length }) := by
  have positive : 0 < size := by omega
  have width := rep.length_eq buffer here
  have used := rep.used_eq
  have small := rep.small
  have write_lt : r.writePos < size := by
    rw [rep.write_eq]
    exact Nat.mod_lt _ positive
  have laid : copySegments buffer r.writePos (size - r.writePos) data =
      .ok (overlay buffer r.writePos data) := by
    unfold copySegments
    rw [overlay, width]
    split_ifs with short
    · exact copyTo_inside (by omega) (by omega) (by omega)
    · have head : r.writePos + (data.take (size - r.writePos)).length ≤ buffer.length := by
        simp only [List.length_take]
        omega
      rw [copyTo_inside (by omega) (by omega) (by simp only [List.length_take]; omega), ok_bind]
      exact copyTo_inside (by omega) (by rw [length_splice _ _ _ head]; omega)
        (by simp only [List.length_drop]; omega)
  have wrapped : wrap r.writePos data.length size r.isPow2 =
      .ok ((r.writePos + data.length) % size) :=
    wrap_eq positive rep.pow2 (by simp only [MAX_CBUF_SIZE] at small; omega)
  have counted : checkedAdd r.used data.length = .ok (r.used + data.length) :=
    if_pos (by simp only [MAX_CBUF_SIZE] at small; omega)
  simp only [copyIn, rep.size_eq, checkedSub_of_le write_lt.le, here, unwrap, ok_bind, laid,
    wrapped, counted]

theorem copyIn_represents (rep : Represents size q r) {buffer data : List UInt8}
    (here : r.data = some buffer) (nonempty : 0 < data.length)
    (fits : q.length + data.length ≤ size) :
    Represents size (q ++ data) { r with
      data := some (overlay buffer r.writePos data)
      writePos := (r.writePos + data.length) % size
      used := r.used + data.length } := by
  have positive : 0 < size := by omega
  have width := rep.length_eq buffer here
  have used := rep.used_eq
  have cursor := rep.read_lt positive
  have write_lt : r.writePos < size := by
    rw [rep.write_eq]
    exact Nat.mod_lt _ positive
  have kept := length_overlay buffer r.writePos data (by omega) (by omega)
  refine ⟨rep.size_eq, rep.small, rep.pow2, rep.read_lt, by simp only; omega, ?_, ?_, ?_, ?_⟩
  · simp only [rep.write_eq, Nat.mod_add_mod, Nat.add_assoc]
  · intro other same
    cases same
    rw [kept, width]
  · exact fun _ => rfl
  · have behind := window_overlay buffer r.readPos r.used data (by omega) (by omega)
    rw [width, ← rep.write_eq] at behind
    rw [contents]
    simp only [behind]
    rw [← rep.contents_eq, contents, here]

theorem write_accepts (rep : Represents size q r) {data : List UInt8}
    (fits : q.length + data.length ≤ size) :
    ∃ r', write data r = .ok data.length r' ∧ Represents size (q ++ data) r' := by
  unfold write
  by_cases empty : data.length = 0
  · rw [if_pos empty, List.eq_nil_of_length_eq_zero empty, List.append_nil]
    exact ⟨r, rfl, rep⟩
  · obtain ⟨made, buffer, here⟩ := rep.allocated
    have copied := copyIn_eq made here (Nat.pos_of_ne_zero empty) fits
    refine ⟨_, ?_, copyIn_represents made here (Nat.pos_of_ne_zero empty) fits⟩
    rw [if_neg empty]
    simp only [withRoom, rep.available]
    rw [if_neg (by omega)]
    exact attempt_ok copied

theorem write_refuses (rep : Represents size q r) {data : List UInt8}
    (exceeds : size < q.length + data.length) : write data r = .err .insufficientSpace r := by
  have used := rep.used_le
  have length := rep.used_eq
  unfold write
  rw [if_neg (by omega)]
  simp only [withRoom, rep.available]
  rw [if_pos (by omega)]

theorem copyOut_spec (rep : Represents size q r) {buffer : List UInt8}
    (here : r.data = some buffer) (nonempty : 0 < r.used) (output : List UInt8) :
    r.copyOut buffer output = .ok (min output.length q.length,
      q.take output.length ++ output.drop (min output.length q.length)) := by
  have width := rep.length_eq buffer here
  have used := rep.used_eq
  have bound := rep.used_le
  have cursor := rep.read_lt (by omega)
  have front : q.take output.length = window buffer r.readPos (min output.length r.used) := by
    rw [← rep.contents_eq, contents, here]
    exact take_window _ _ _ _
  have laid : ∀ src : List UInt8, src.length = min output.length r.used →
      splice output 0 src = src ++ output.drop (min output.length q.length) := by
    intro src length
    rw [splice, List.take_zero, List.nil_append, Nat.zero_add, length, used]
  rw [CircularBuffer.copyOut, rep.size_eq, checkedSub_of_le cursor.le, ok_bind, front,
    window_segments _ _ _ (by omega), width]
  split_ifs with short
  · have bytes : ((buffer.drop r.readPos).take (min output.length r.used)).length =
        min output.length r.used := by
      simp only [List.length_take, List.length_drop]
      omega
    rw [sliceOf_inside (by omega) (by omega), ok_bind, Nat.add_sub_cancel_left,
      copyTo_inside (by omega) (by omega) (by omega), ok_bind, laid _ bytes, used]
  · have head : ((buffer.drop r.readPos).take (size - r.readPos)) =
        buffer.drop r.readPos := List.take_of_length_le (by simp only [List.length_drop]; omega)
    have headLength : (buffer.drop r.readPos).length = size - r.readPos := by
      rw [List.length_drop, width]
    have tail : (buffer.take r.readPos).take (min output.length r.used - (size - r.readPos)) =
        (buffer.drop 0).take (min output.length r.used - (size - r.readPos) - 0) := by
      rw [List.take_take, List.drop_zero, min_eq_left (by omega), Nat.sub_zero]
    have tailLength : ((buffer.drop 0).take
        (min output.length r.used - (size - r.readPos) - 0)).length =
          min output.length r.used - (size - r.readPos) := by
      simp only [List.length_take, List.length_drop]
      omega
    have first : 0 + (buffer.drop r.readPos).length ≤ output.length := by omega
    rw [sliceOf_inside cursor.le width.ge, ok_bind, head,
      copyTo_inside (by omega) (by omega) (by omega), ok_bind,
      sliceOf_inside (by omega) (by omega), ok_bind,
      copyTo_inside (by omega) (by rw [length_splice _ _ _ first]; omega) (by omega), ok_bind,
      tail]
    have joined := splice_splice output 0 (buffer.drop r.readPos)
      ((buffer.drop 0).take (min output.length r.used - (size - r.readPos) - 0)) (by omega)
    rw [Nat.zero_add, headLength] at joined
    rw [joined, laid _ (by rw [List.length_append]; omega), used]

theorem read_spec (rep : Represents size q r) (output : List UInt8) :
    ∃ r', read output r = .ok (min output.length q.length,
        q.take output.length ++ output.drop (min output.length q.length)) r' ∧
      Represents size (q.drop output.length) r' := by
  have used := rep.used_eq
  by_cases empty : r.used = 0
  · have none : q = [] := List.eq_nil_of_length_eq_zero (by omega)
    refine ⟨r, ?_, by rw [none, List.drop_nil, ← none]; exact rep⟩
    rw [none]
    simp [CircularBuffer.read, empty]
  · obtain ⟨buffer, here⟩ := Option.isSome_iff_exists.mp (rep.stored (Nat.pos_of_ne_zero empty))
    have bound := rep.used_le
    have small := rep.small
    have positive : 0 < size := by omega
    have cursor := rep.read_lt positive
    have width := rep.length_eq buffer here
    have copied := copyOut_spec rep here (Nat.pos_of_ne_zero empty) output
    have wrapped : wrap r.readPos (min output.length q.length) r.size r.isPow2 =
        .ok ((r.readPos + min output.length q.length) % size) := by
      rw [rep.size_eq]
      exact wrap_eq positive rep.pow2 (by simp only [MAX_CBUF_SIZE] at small; omega)
    have left : checkedSub r.used (min output.length q.length) =
        .ok (r.used - min output.length q.length) := checkedSub_of_le (by omega)
    refine ⟨{ r with
      readPos := (r.readPos + min output.length q.length) % size
      used := r.used - min output.length q.length }, ?_, ?_⟩
    · simp only [CircularBuffer.read, empty, decide_false, here]
      apply attempt_ok
      simp only [copied, ok_bind, wrapped, left, here]
    · refine ⟨rep.size_eq, rep.small, rep.pow2, fun _ => Nat.mod_lt _ positive,
        by simp only; omega, ?_, rep.length_eq, fun _ => by simp only [here]; rfl, ?_⟩
      · simp only [rep.write_eq, Nat.mod_add_mod]
        congr 1
        omega
      · have rest := drop_window buffer r.readPos r.used (min output.length q.length) (by omega)
        have moved := window_mod buffer (r.readPos + min output.length q.length)
          (r.used - min output.length q.length)
        rw [width] at moved
        simp only [contents, here]
        rw [moved, ← rest]
        have whole : window buffer r.readPos r.used = q := by
          rw [← rep.contents_eq, contents, here]
        rw [whole]
        by_cases short : output.length ≤ q.length
        · rw [min_eq_left short]
        · rw [min_eq_right (by omega), List.drop_length, List.drop_eq_nil_of_le (by omega)]

theorem peek_spec (rep : Represents size q r) (output : List UInt8) :
    peek output r = .ok (min output.length q.length,
      q.take output.length ++ output.drop (min output.length q.length)) r := by
  have used := rep.used_eq
  by_cases empty : r.used = 0
  · have none : q = [] := List.eq_nil_of_length_eq_zero (by omega)
    rw [none]
    simp [peek, empty]
  · obtain ⟨buffer, here⟩ := Option.isSome_iff_exists.mp (rep.stored (Nat.pos_of_ne_zero empty))
    have bound := rep.used_le
    have small := rep.small
    have positive : 0 < size := by omega
    have cursor := rep.read_lt positive
    have copied := copyOut_spec rep here (Nat.pos_of_ne_zero empty) output
    have wrapped : wrap r.readPos (min output.length q.length) r.size r.isPow2 =
        .ok ((r.readPos + min output.length q.length) % size) := by
      rw [rep.size_eq]
      exact wrap_eq positive rep.pow2 (by simp only [MAX_CBUF_SIZE] at small; omega)
    simp only [peek, empty, decide_false, here]
    apply attempt_ok
    simp only [copied, ok_bind, wrapped]

theorem readPtrs_eq (rep : Represents size q r) :
    r.readPtrs = .ok (q.take (size - r.readPos), q.drop (size - r.readPos)) := by
  have used := rep.used_eq
  unfold readPtrs
  by_cases empty : r.used = 0
  · obtain rfl : q = [] := List.eq_nil_of_length_eq_zero (by omega)
    rw [if_pos empty, List.take_nil, List.drop_nil]
  · obtain ⟨buffer, here⟩ := Option.isSome_iff_exists.mp (rep.stored (Nat.pos_of_ne_zero empty))
    have bound := rep.used_le
    have cursor := rep.read_lt (by omega)
    have width := rep.length_eq buffer here
    have whole : window buffer r.readPos r.used = q := by
      rw [← rep.contents_eq, contents, here]
    rw [window_segments _ _ _ (by omega), width] at whole
    rw [if_neg empty, here, rep.size_eq]
    simp only
    rw [checkedSub_of_le cursor.le, ok_bind]
    by_cases short : r.used ≤ size - r.readPos
    · rw [if_pos short] at whole
      rw [min_eq_left short, sliceOf_inside (by omega) (by omega), ok_bind, if_neg (by omega),
        Nat.add_sub_cancel_left, whole, List.take_of_length_le (by omega),
        List.drop_eq_nil_of_le (by omega)]
    · have headLength : (buffer.drop r.readPos).length = size - r.readPos := by
        rw [List.length_drop, width]
      rw [if_neg short] at whole
      rw [min_eq_right (by omega), sliceOf_inside (by omega) (by omega), ok_bind,
        if_pos (by omega), sliceOf_inside (by omega) (by omega), ok_bind, ← whole, ← headLength,
        List.take_left, List.drop_left, headLength, List.drop_zero, List.take_take,
        min_eq_left (by omega), Nat.sub_zero, List.take_of_length_le (by omega)]

theorem readPtrs_spec (rep : Represents size q r) :
    ∃ first second, r.readPtrs = .ok (first, second) ∧ first ++ second = q :=
  ⟨_, _, readPtrs_eq rep, List.take_append_drop _ _⟩

theorem clear_spec (rep : Represents size q r) : Represents size [] r.clear := by
  refine ⟨rep.size_eq, rep.small, rep.pow2, fun positive => positive, Nat.zero_le _,
    (Nat.zero_mod _).symm, rep.length_eq, fun some => absurd some (lt_irrefl _), ?_⟩
  unfold contents CircularBuffer.clear
  cases r.data <;> rfl

theorem free_spec (rep : Represents size q r) : Represents size [] r.free :=
  ⟨rep.size_eq, rep.small, rep.pow2, fun positive => positive, Nat.zero_le _,
    (Nat.zero_mod _).symm, nofun, fun some => absurd some (lt_irrefl _), rfl⟩

end

theorem new_spec {size : Nat} (small : size ≤ MAX_CBUF_SIZE) :
    ∃ r, CircularBuffer.new size = .ok r ∧ Represents size [] r :=
  ⟨_, if_pos small, rfl, small, of_decide_eq_true, fun positive => positive, Nat.zero_le _,
    (Nat.zero_mod _).symm, nofun, fun some => absurd some (lt_irrefl _), rfl⟩

/-! The bounded queue itself, and the simulation. -/

inductive FifoOp where
  | write (data : List UInt8)
  | read (output : List UInt8)
  | peek (output : List UInt8)
  | readPtrs
  | clear
  | free
  deriving DecidableEq, Repr

inductive Seen where
  | accepted (n : Nat)
  | insufficientSpace
  /-- A count and the caller's output as it was left. -/
  | copied (n : Nat) (output : List UInt8)
  | bytes (queued : List UInt8)
  | done
  deriving DecidableEq, Repr

def front (q output : List UInt8) : Seen :=
  let n := min output.length q.length
  .copied n (q.take n ++ output.drop n)

def fifoStep (size : Nat) (q : List UInt8) : FifoOp → Seen × List UInt8
  | .write data =>
    if q.length + data.length ≤ size then (.accepted data.length, q ++ data)
    else (.insufficientSpace, q)
  | .read output => (front q output, q.drop (min output.length q.length))
  | .peek output => (front q output, q)
  | .readPtrs => (.bytes q, q)
  | .clear | .free => (.done, [])

def fifoRun (size : Nat) (q : List UInt8) : List FifoOp → List Seen × List UInt8
  | [] => ([], q)
  | op :: rest =>
    let (seen, q) := fifoStep size q op
    let (more, q) := fifoRun size q rest
    (seen :: more, q)

def FifoOp.call : FifoOp → RingOp
  | .write data => .write data
  | .read output => .read output
  | .peek output => .peek output
  | .readPtrs => .readPtrs
  | .clear => .clear
  | .free => .free

/-- A ring's answer as its caller sees it; a call that does not come back shows nothing. -/
def see : Outcome CircularBuffer BufferError RingReply → Option (Seen × CircularBuffer)
  | .ok (.size n) r => some (.accepted n, r)
  | .ok (.copied n output) r => some (.copied n output, r)
  | .ok (.slices first second) r => some (.bytes (first ++ second), r)
  | .ok .unit r => some (.done, r)
  | .err .insufficientSpace r => some (.insufficientSpace, r)
  | _ => none

def ringRun (r : CircularBuffer) : List FifoOp → Option (List Seen × CircularBuffer)
  | [] => some ([], r)
  | op :: rest => do
    let (seen, r) ← see (step op.call r)
    let (more, r) ← ringRun r rest
    some (seen :: more, r)

theorem take_min (q : List UInt8) (n : Nat) : q.take (min n q.length) = q.take n := by
  by_cases short : n ≤ q.length
  · rw [min_eq_left short]
  · rw [min_eq_right (by omega), List.take_length, List.take_of_length_le (by omega)]

theorem drop_min (q : List UInt8) (n : Nat) : q.drop (min n q.length) = q.drop n := by
  by_cases short : n ≤ q.length
  · rw [min_eq_left short]
  · rw [min_eq_right (by omega), List.drop_length, List.drop_eq_nil_of_le (by omega)]

/-- One operation on the ring is the same operation on the queue. -/
theorem step_simulates {size : Nat} {q : List UInt8} {r : CircularBuffer}
    (rep : Represents size q r) (op : FifoOp) :
    ∃ r', see (step op.call r) = some ((fifoStep size q op).1, r') ∧
      Represents size (fifoStep size q op).2 r' := by
  cases op with
  | write data =>
    by_cases fits : q.length + data.length ≤ size
    · obtain ⟨r', written, after⟩ := write_accepts rep fits
      refine ⟨r', ?_, by rwa [fifoStep, if_pos fits]⟩
      simp only [FifoOp.call, step, Call.map, written, see, fifoStep, if_pos fits]
    · have refused := write_refuses rep (by omega : size < q.length + data.length)
      refine ⟨r, ?_, by rwa [fifoStep, if_neg fits]⟩
      simp only [FifoOp.call, step, Call.map, refused, see, fifoStep, if_neg fits]
  | read output =>
    obtain ⟨r', copied, after⟩ := read_spec rep output
    refine ⟨r', ?_, by rwa [fifoStep, drop_min]⟩
    simp only [FifoOp.call, step, Call.map, copied, see, fifoStep, front, take_min]
  | peek output =>
    refine ⟨r, ?_, rep⟩
    simp only [FifoOp.call, step, Call.map, peek_spec rep, see, fifoStep, front, take_min]
  | readPtrs =>
    obtain ⟨first, second, slices, whole⟩ := readPtrs_spec rep
    refine ⟨r, ?_, rep⟩
    simp only [FifoOp.call, step, Call.attempt, slices, ok_bind, see, fifoStep, whole]
  | clear => exact ⟨_, rfl, clear_spec rep⟩
  | free => exact ⟨_, rfl, free_spec rep⟩

theorem run_simulates {size : Nat} {q : List UInt8} {r : CircularBuffer}
    (rep : Represents size q r) (ops : List FifoOp) :
    ∃ r', ringRun r ops = some ((fifoRun size q ops).1, r') ∧
      Represents size (fifoRun size q ops).2 r' := by
  induction ops generalizing q r with
  | nil => exact ⟨r, rfl, rep⟩
  | cons op rest ih =>
    obtain ⟨middle, seen, between⟩ := step_simulates rep op
    obtain ⟨r', more, after⟩ := ih between
    refine ⟨r', ?_, after⟩
    simp only [ringRun, seen, more, fifoRun, Option.bind_eq_bind, Option.bind_some]

/-- A ring of any size answers every sequence of operations as the bounded queue does, with
`used()` its length throughout; a refused write and a `peek` leave the ring as it was. -/
theorem ring_is_fifo {size : Nat} (small : size ≤ MAX_CBUF_SIZE) :
    ∃ r, CircularBuffer.new size = .ok r ∧ ∀ ops, ∃ r',
      ringRun r ops = some ((fifoRun size [] ops).1, r') ∧
      r'.used = (fifoRun size [] ops).2.length ∧
      (∀ data, size < r'.used + data.length →
        CircularBuffer.write data r' = .err .insufficientSpace r') ∧
      ∀ output, ∃ reply, CircularBuffer.peek output r' = .ok reply r' := by
  obtain ⟨r, made, rep⟩ := new_spec small
  refine ⟨r, made, fun ops => ?_⟩
  obtain ⟨r', run, after⟩ := run_simulates rep ops
  refine ⟨r', run, after.used_eq, fun data exceeds => ?_, fun output => ⟨_, peek_spec after output⟩⟩
  exact write_refuses after (after.used_eq ▸ exceeds)

theorem ring_is_fifo_five :
    ∃ r r', CircularBuffer.new 5 = .ok r ∧
      ringRun r [.write [1, 2, 3, 4], .read [0, 0, 0], .write [5, 6, 7, 8], .write [9],
        .peek [0, 0, 0, 0, 0, 0], .readPtrs] =
        some ([.accepted 4, .copied 3 [1, 2, 3], .accepted 4, .insufficientSpace,
          .copied 5 [4, 5, 6, 7, 8, 0], .bytes [4, 5, 6, 7, 8]], r') := by
  obtain ⟨r, made, rule⟩ := ring_is_fifo (show 5 ≤ MAX_CBUF_SIZE by decide)
  obtain ⟨r', run, -⟩ := rule [.write [1, 2, 3, 4], .read [0, 0, 0], .write [5, 6, 7, 8],
    .write [9], .peek [0, 0, 0, 0, 0, 0], .readPtrs]
  exact ⟨r, r', made, run⟩

end Secbuf.RingFifo
