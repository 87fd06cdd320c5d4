import Secbuf.BufferScript
import Secbuf.Ring

/-! Which operations put something into a blank buffer, or into a ring that holds nothing and
has no storage. Every other operation leaves the one blank and the other as empty as it was. -/

namespace Secbuf.Filling
open Calls BigEndian Storage BufferCore BufferOps BufferScript

/-! Putting something into a blank buffer. -/

/-- The calls after which a blank buffer is no longer blank: they raise the length, or store a
byte other than zero. -/
def fillsBuffer (b : Buffer) : BufferOp → Prop
  | .setLen len => 0 < len ∧ len ≤ BUF_MAX_SIZE
  | .incrLen incr => 0 < incr ∧ incr ≤ BUF_MAX_INCR ∧ b.len + incr ≤ BUF_MAX_SIZE
  | .incrWritePos incr => 0 < incr ∧ incr ≤ BUF_MAX_INCR ∧ b.pos + incr ≤ BUF_MAX_SIZE
  | .putByte _ => b.pos + 1 ≤ b.data.len
  | .putU32 _ => b.pos + 4 ≤ b.data.len
  | .putU64 _ => b.pos + 8 ≤ b.data.len
  | .putBytes bytes | .putBytesFast _ bytes =>
    bytes.val ≠ [] ∧ b.pos + bytes.val.length ≤ b.data.len
  | .putString s => s.val.length ≤ MAX_STRING_LEN ∧ b.pos + 4 ≤ b.data.len
  | .getWritePtr len _ src =>
    len ≤ 1000000000 ∧ b.pos + len ≤ b.data.len ∧ ∃ byte ∈ src.val, byte ≠ 0
  | _ => False

section
variable {b t : Buffer}

theorem blank_iff_len (blank : Blank b) {op : BufferOp} (stepped : Stepped b op t)
    (plain : ∀ i value, (i, value) ∈ op.stores b → value = 0) : Blank t ↔ t.len = 0 := by
  obtain ⟨valid, effect⟩ := step_lands blank.valid op t stepped
  refine ⟨Blank.len, fun empty => ⟨?_, empty, fun value member => ?_⟩⟩
  · have cursor := valid.pos_le
    omega
  · obtain ⟨i, found⟩ := List.mem_iff_getElem?.mp member
    rcases effect.byte_cases found with zero | stored | old
    · exact zero
    · exact plain i value stored
    · exact blank.bytes value (List.mem_of_getElem? old)

theorem blank_put (blank : Blank b) {n : Nat} {src : List UInt8} {put : BufferM Unit}
    (width : src.length = n)
    (rule : put b = if b.pos + n ≤ b.data.len then .ok () (stored b src)
      else .err .bufferOverflow b)
    (done : (put b).state? = some t) : Blank t ↔ ¬ (src ≠ [] ∧ b.pos + n ≤ b.data.len) := by
  rw [rule] at done
  split_ifs at done with fits
  · cases done
    cases src with
    | nil =>
      refine iff_of_true ⟨?_, ?_, ?_⟩ (by simp)
      · simp [stored, blank.pos]
      · simp [stored, blank.pos, blank.len]
      · rw [stored, ByteVec.bytes_store (by simp [blank.pos])]
        simpa [Splice.splice] using blank.bytes
    | cons byte rest =>
      refine iff_of_false (fun left => ?_) (by simp [fits])
      have empty := left.len
      simp [stored, blank.pos] at empty
  · cases done
    exact iff_of_true blank (by simp [fits])

theorem blank_putString (blank : Blank b) {s : Slice}
    (done : (putString s.val b).state? = some t) : Blank t ↔ ¬ fillsBuffer b (.putString s) := by
  have longer (src : List UInt8) : ¬ Blank (stored b (bigEndian 4 s.val.length ++ src)) := by
    intro left
    have empty := left.len
    simp only [stored, List.length_append, length_bigEndian] at empty
    omega
  rw [putString_spec blank.valid] at done
  simp only [fillsBuffer]
  split_ifs at done with long whole head
  · cases done
    exact iff_of_true blank (by omega)
  · cases done
    exact iff_of_false (longer _) (by omega)
  · cases done
    rw [← List.append_nil (bigEndian 4 s.val.length)]
    exact iff_of_false (longer _) (by omega)
  · cases done
    exact iff_of_true blank (by omega)

theorem blank_getWritePtr (blank : Blank b) {len offset : Nat} {src : Slice}
    (stepped : Stepped b (.getWritePtr len offset src) t) :
    Blank t ↔ ¬ fillsBuffer b (.getWritePtr len offset src) := by
  have rule := getWritePtr_spec blank.valid len
  simp only [Stepped, step, state?_map] at stepped
  simp only [fillsBuffer]
  by_cases given : len ≤ 1000000000 ∧ b.pos + len ≤ b.data.len
  · rw [if_pos given] at rule
    rw [editRegion_inside rule given.2] at stepped
    split_ifs at stepped with room
    · cases stepped
      simp only at room
      have fits : b.pos + offset + src.val.length ≤ b.data.len := by omega
      have bytes := ByteVec.bytes_store fits
      simp only [given, true_and, not_exists, not_and, not_not]
      constructor
      · intro left byte member
        refine left.bytes byte ?_
        rw [bytes, Splice.splice]
        exact List.mem_append_left _ (List.mem_append_right _ member)
      · intro zeros
        refine ⟨blank.pos, blank.len, fun value member => ?_⟩
        rw [bytes, Splice.splice] at member
        rcases List.mem_append.mp member with early | late
        · rcases List.mem_append.mp early with before | here
          · exact blank.bytes value (List.mem_of_mem_take before)
          · exact zeros value here
        · exact blank.bytes value (List.mem_of_mem_drop late)
    · cases stepped
  · rw [if_neg given] at rule
    rw [editRegion_refused rule] at stepped
    cases stepped
    exact iff_of_true blank (by omega)

theorem stores_none {op : BufferOp} (nothing : op.stores b = []) :
    ∀ i value, (i, value) ∈ op.stores b → value = 0 := by
  intro i value member
  rw [nothing] at member
  cases member

theorem stores_growth {op : BufferOp} {refused : Prop} [Decidable refused] {n : Nat}
    (grows : op.change b = if refused then .keep else growTo b n) :
    ∀ i value, (i, value) ∈ op.stores b → value = 0 := by
  refine stores_none ?_
  rw [BufferOp.stores, grows, growTo]
  split_ifs <;> rfl

theorem grown_state {n : Nat} {built : ByteVec → Buffer}
    (done : (match b.growData n with
      | .error reason => .fault reason
      | .ok data => .ok () (built data) : Outcome Buffer BufferError Unit).state? = some t) :
    ∃ data, t = built data := by
  cases grown : b.growData n with
  | error reason =>
    rw [grown] at done
    cases done
  | ok data =>
    rw [grown] at done
    cases done
    exact ⟨data, rfl⟩

theorem blank_setLen (blank : Blank b) {len : Nat} (stepped : Stepped b (.setLen len) t) :
    Blank t ↔ ¬ fillsBuffer b (.setLen len) := by
  have measure := blank_iff_len blank stepped (stores_growth rfl)
  simp only [Stepped, step, state?_map, Buffer.setLen] at stepped
  simp only [fillsBuffer]
  split_ifs at stepped with big
  · cases stepped
    exact iff_of_true blank (by omega)
  · obtain ⟨data, rfl⟩ := grown_state stepped
    rw [measure]
    simp only
    omega

theorem blank_incrLen (blank : Blank b) {incr : Nat} (stepped : Stepped b (.incrLen incr) t) :
    Blank t ↔ ¬ fillsBuffer b (.incrLen incr) := by
  have empty := blank.len
  have measure := blank_iff_len blank stepped (stores_growth rfl)
  simp only [Stepped, step, state?_map, Buffer.incrLen] at stepped
  simp only [fillsBuffer]
  by_cases big : incr > BUF_MAX_INCR
  · rw [if_pos big] at stepped
    cases stepped
    exact iff_of_true blank (by omega)
  · have sum : usizeAdd b.len incr = b.len + incr :=
      blank.valid.add_len (by simp only [BUF_MAX_INCR] at big; omega)
    rw [if_neg big, sum] at stepped
    split_ifs at stepped with exceeds
    · cases stepped
      exact iff_of_true blank (by omega)
    · obtain ⟨data, rfl⟩ := grown_state stepped
      rw [measure]
      simp only
      omega

theorem blank_incrWritePos (blank : Blank b) {incr : Nat}
    (stepped : Stepped b (.incrWritePos incr) t) :
    Blank t ↔ ¬ fillsBuffer b (.incrWritePos incr) := by
  have empty := blank.len
  have start := blank.pos
  have measure := blank_iff_len blank stepped (stores_growth rfl)
  simp only [Stepped, step, state?_map, Buffer.incrWritePos] at stepped
  simp only [fillsBuffer]
  by_cases big : incr > BUF_MAX_INCR
  · rw [if_pos big] at stepped
    cases stepped
    exact iff_of_true blank (by omega)
  · have sum : usizeAdd b.pos incr = b.pos + incr :=
      blank.valid.add_pos (by simp only [BUF_MAX_INCR] at big; omega)
    rw [if_neg big, sum] at stepped
    by_cases exceeds : b.pos + incr > BUF_MAX_SIZE
    · rw [if_pos exceeds] at stepped
      cases stepped
      exact iff_of_true blank (by omega)
    · rw [if_neg exceeds] at stepped
      obtain ⟨data, rfl⟩ := grown_state stepped
      rw [measure]
      simp only
      split_ifs <;> omega

def keepsLength : BufferOp → Bool
  | .setPos _ | .incrPos _ | .decrPos _ | .reserve _ | .shrinkToFit | .clone => true
  | .remaining | .asSlice | .getByte | .getBool | .getU32 | .getU64 => true
  | .getBytes _ | .getBytesRef _ | .getPtr _ | .getString | .eatString => true
  | _ => false

theorem length_getByte (valid : Valid b) (done : (getByte b).state? = some t) : t.len = b.len := by
  rw [getByte_spec valid] at done
  split_ifs at done <;> (cases done; rfl)

theorem length_getBytes (valid : Valid b) {n : Nat} (done : (getBytes n b).state? = some t) :
    t.len = b.len := by
  cases run : getBytes n b with
  | ok bytes u =>
    obtain ⟨_, _, rfl⟩ := getBytes_ok valid run
    rw [run] at done
    cases done
    rfl
  | err error u =>
    obtain rfl := getBytes_err run
    rw [run] at done
    cases done
    rfl
  | fault reason =>
    rw [run] at done
    cases done

theorem length_kept (valid : Valid b) {op : BufferOp} (listed : keepsLength op = true)
    (stepped : Stepped b op t) : t.len = b.len := by
  cases op with
  | setPos pos =>
    simp only [Stepped, step, state?_map, Buffer.setPos] at stepped
    split_ifs at stepped <;> (cases stepped; rfl)
  | incrPos incr =>
    simp only [Stepped, step, state?_map, Buffer.incrPos] at stepped
    split_ifs at stepped <;> (cases stepped; rfl)
  | decrPos decr =>
    simp only [Stepped, step, state?_map, Buffer.decrPos] at stepped
    split_ifs at stepped <;> (cases stepped; rfl)
  | reserve additional =>
    simp only [Stepped, step, state?_map, Buffer.reserve] at stepped
    cases grown : b.data.reserve additional with
    | error reason =>
      rw [grown] at stepped
      cases stepped
    | ok data =>
      rw [grown] at stepped
      cases stepped
      rfl
  | shrinkToFit | clone | remaining =>
    cases stepped
    rfl
  | asSlice =>
    simp only [Stepped, step, state?_map, asSliceCall_spec valid] at stepped
    cases stepped
    rfl
  | getByte =>
    simp only [Stepped, step, state?_map] at stepped
    exact length_getByte valid stepped
  | getBool =>
    simp only [Stepped, step, state?_map, getBool_eq] at stepped
    exact length_getByte valid stepped
  | getU32 =>
    simp only [Stepped, step, state?_map, getU32_spec valid] at stepped
    split_ifs at stepped <;> (cases stepped; rfl)
  | getU64 =>
    simp only [Stepped, step, state?_map, getU64_spec valid] at stepped
    split_ifs at stepped <;> (cases stepped; rfl)
  | getBytes len | getBytesRef len =>
    simp only [Stepped, step, state?_map] at stepped
    exact length_getBytes valid stepped
  | getPtr len =>
    simp only [Stepped, step, state?_map, getPtr_spec valid] at stepped
    split_ifs at stepped <;> (cases stepped; rfl)
  | getString =>
    simp only [Stepped, step, state?_map, getString_spec valid] at stepped
    split_ifs at stepped <;> (cases stepped; rfl)
  | eatString =>
    simp only [Stepped, step, state?_map, eatString_spec valid] at stepped
    split_ifs at stepped <;> (cases stepped; rfl)
  | _ => cases listed

theorem stays_blank (blank : Blank b) {op : BufferOp} (stepped : Stepped b op t)
    (nothing : op.stores b = []) (quiet : ¬ fillsBuffer b op) (empty : t.len = 0) :
    Blank t ↔ ¬ fillsBuffer b op :=
  iff_of_true ((blank_iff_len blank stepped (stores_none nothing)).mpr empty) quiet

theorem blank_step (blank : Blank b) {op : BufferOp} (stepped : Stepped b op t) :
    Blank t ↔ ¬ fillsBuffer b op := by
  have valid := blank.valid
  have empty := blank.len
  have start := blank.pos
  cases op with
  | putByte val =>
    simp only [Stepped, step, state?_map] at stepped
    simpa [fillsBuffer] using
      blank_put blank (show [val].length = 1 from rfl) (putByte_spec valid val) stepped
  | putU32 val =>
    simp only [Stepped, step, state?_map] at stepped
    have rule := blank_put blank (length_bigEndian 4 _) (putU32_spec valid val) stepped
    simpa [fillsBuffer, bigEndian] using rule
  | putU64 val =>
    simp only [Stepped, step, state?_map] at stepped
    have rule := blank_put blank (length_bigEndian 8 _) (putU64_spec valid val) stepped
    simpa [fillsBuffer, bigEndian] using rule
  | putBytes bytes =>
    simp only [Stepped, step, state?_map] at stepped
    exact blank_put blank rfl (putBytes_spec valid bytes.2) stepped
  | putBytesFast target bytes =>
    simp only [Stepped, step, state?_map] at stepped
    exact blank_put blank rfl (putBytesFast_spec valid target bytes.2) stepped
  | putString s =>
    simp only [Stepped, step, state?_map] at stepped
    exact blank_putString blank stepped
  | getWritePtr len offset src => exact blank_getWritePtr blank stepped
  | setLen len => exact blank_setLen blank stepped
  | incrLen incr => exact blank_incrLen blank stepped
  | incrWritePos incr => exact blank_incrWritePos blank stepped
  | asMutSlice offset src =>
    simp only [Stepped, step, state?_map] at stepped
    rw [editRegion_inside (asMutSlice_spec valid) (by simpa using valid.len_le)] at stepped
    split_ifs at stepped with room
    · simp only at room
      have nothing : src.val = [] := List.length_eq_zero_iff.mp (by omega)
      rw [nothing] at stepped
      cases stepped
      refine iff_of_true ⟨start, empty, ?_⟩ not_false
      rw [ByteVec.bytes_store (by simp; omega), Splice.splice_nil]
      exact blank.bytes
    · cases stepped
  | reset | burn | zeroize =>
    cases stepped
    exact stays_blank blank rfl rfl not_false rfl
  | resize newSize =>
    refine stays_blank blank stepped ?_ not_false ?_
    · simp only [BufferOp.stores, BufferOp.change]
      split_ifs <;> rfl
    · simp only [Stepped, step, state?_map, Buffer.resize] at stepped
      split_ifs at stepped
      · cases stepped
        exact empty
      · cases grown : b.data.resize newSize with
        | error reason =>
          rw [grown] at stepped
          cases stepped
        | ok data =>
          rw [grown] at stepped
          cases stepped
          simp only
          omega
  | _ =>
    -- what is left neither stores nor moves the length
    exact stays_blank blank stepped rfl not_false ((length_kept valid rfl stepped).trans empty)

end

/-! Putting something into an empty ring. -/

structure Released (r : Ring.CircularBuffer) : Prop where
  used : r.used = 0
  data : r.data = none

/-- The calls after which a ring without storage is empty and without storage no longer. -/
def fillsRing (r : Ring.CircularBuffer) : Ring.RingOp → Prop
  | .write data => data ≠ [] ∧ r.used + data.length ≤ r.size
  | .writePtr len _ _ => r.used + len ≤ r.size ∧ r.writePos + len ≤ r.size
  | .writeSlicesMut len _ _ | .incrWrite len => 0 < len ∧ r.used + len ≤ r.size
  | _ => False

section
open Secbuf.Ring Ring.CircularBuffer
variable {r t : Ring.CircularBuffer}

theorem released_new {size : Nat} (made : CircularBuffer.new size = .ok r) : Released r := by
  unfold CircularBuffer.new at made
  split_ifs at made
  cases made
  exact ⟨rfl, rfl⟩

theorem not_released (stored : r.data.isSome) : ¬ Released r := by
  intro released
  rw [released.data] at stored
  cases stored

theorem available_empty (released : Released r) : r.available = .ok r.size := by
  simp only [available, checkedSub, released.used, Nat.zero_le, if_true, Nat.sub_zero]

theorem fillRegion_empty (r : CircularBuffer) (src : List UInt8) :
    (fillRegion ⟨0, 0⟩ 0 src).Keeps (· = r) := by
  rintro _ t rfl done
  unfold fillRegion at done
  split_ifs at done with exceeds
  · cases done
  · cases done
    rfl
  · simp only at exceeds
    omega

theorem write_released (released : Released r) {data : List UInt8}
    (done : (CircularBuffer.write data r).state? = some t) :
    Released t ↔ ¬ fillsRing r (.write data) := by
  have empty := released.used
  simp only [CircularBuffer.write, withRoom, available_empty released] at done
  simp only [fillsRing, ← List.length_eq_zero_iff.not]
  split_ifs at done with nothing exceeds
  · cases done
    exact iff_of_true released (by omega)
  · cases done
    exact iff_of_true released (by omega)
  · obtain ⟨_, done⟩ := attempt_state?.mp done
    obtain ⟨_, _, done⟩ := ok_of_bind done
    obtain ⟨_, _, done⟩ := ok_of_bind done
    obtain ⟨_, _, done⟩ := ok_of_bind done
    obtain ⟨_, _, done⟩ := ok_of_bind done
    obtain ⟨_, _, done⟩ := ok_of_bind done
    cases done
    exact iff_of_false (not_released rfl) (by omega)

theorem writePtr_released (released : Released r) {len offset : Nat} {src : List UInt8}
    (done : (Ring.step (.writePtr len offset src) r).state? = some t) :
    Released t ↔ ¬ fillsRing r (.writePtr len offset src) := by
  have empty := released.used
  simp only [fillsRing]
  rcases bind_state? done with ⟨error, refused⟩ | ⟨region, r', handed, later⟩
  · simp only [writePtr, withRoom, available_empty released] at refused
    split_ifs at refused with exceeds
    · cases refused
      exact iff_of_true released (by omega)
    · cases sum : checkedAdd r.writePos len with
      | error reason =>
        rw [sum] at refused
        cases refused
      | ok last =>
        obtain rfl := checkedAdd_eq sum
        simp only [sum] at refused
        split_ifs at refused
        · cases refused
          exact iff_of_true released (by omega)
        · exact absurd refused attempt_err
  · simp only [writePtr, withRoom, available_empty released] at handed
    split_ifs at handed with exceeds
    cases sum : checkedAdd r.writePos len with
    | error reason =>
      rw [sum] at handed
      cases handed
    | ok last =>
      obtain rfl := checkedAdd_eq sum
      simp only [sum] at handed
      split_ifs at handed with crosses
      obtain ⟨_, given⟩ := attempt_state?.mp (congrArg Outcome.state? handed)
      obtain ⟨_, _, given⟩ := ok_of_bind given
      obtain ⟨_, _, given⟩ := ok_of_bind given
      cases given
      have there := keeps_fill stored_fillRegion region offset src _ t
        (ensureAllocated_stored r) later
      exact iff_of_false (not_released there) (by omega)

theorem writeSlicesMut_released (released : Released r) {len : Nat} {first second : List UInt8}
    (done : (Ring.step (.writeSlicesMut len first second) r).state? = some t) :
    Released t ↔ ¬ fillsRing r (.writeSlicesMut len first second) := by
  have empty := released.used
  simp only [fillsRing]
  rcases bind_state? done with ⟨error, refused⟩ | ⟨⟨head, tail⟩, r', handed, later⟩
  · simp only [writeSlicesMut, withRoom, available_empty released] at refused
    split_ifs at refused with nothing exceeds
    · cases refused
      exact iff_of_true released (by omega)
    · exact absurd refused attempt_err
  · simp only [writeSlicesMut, withRoom, available_empty released] at handed
    split_ifs at handed with nothing exceeds
    · cases handed
      have same : t = r := (fillRegion_empty r first).bind
        (fun _ => (fillRegion_empty r second).bind fun _ => .pure _ RingReply.unit) r t rfl later
      rw [same]
      exact iff_of_true released (by omega)
    · have there : r'.data.isSome := by
        obtain ⟨_, given⟩ := attempt_state?.mp (congrArg Outcome.state? handed)
        obtain ⟨_, _, given⟩ := ok_of_bind given
        obtain ⟨_, _, given⟩ := ok_of_bind given
        split_ifs at given
        · obtain ⟨_, _, given⟩ := ok_of_bind given
          cases given
          exact ensureAllocated_stored r
        · obtain ⟨_, _, given⟩ := ok_of_bind given
          obtain ⟨_, _, given⟩ := ok_of_bind given
          obtain ⟨_, _, given⟩ := ok_of_bind given
          obtain ⟨_, _, given⟩ := ok_of_bind given
          cases given
          exact ensureAllocated_stored r
      have kept := keeps_fill_both stored_fillRegion head tail first second r' t there later
      exact iff_of_false (not_released kept) (by omega)

theorem released_step (released : Released r) {op : RingOp}
    (done : (Ring.step op r).state? = some t) : Released t ↔ ¬ fillsRing r op := by
  have empty := released.used
  cases op with
  | write data =>
    rw [Ring.step, state?_map] at done
    exact write_released released done
  | writePtr len offset src => exact writePtr_released released done
  | writeSlicesMut len first second => exact writeSlicesMut_released released done
  | read output =>
    rw [Ring.step, state?_map, CircularBuffer.read, decide_eq_true released.used] at done
    cases done
    exact iff_of_true released not_false
  | peek output =>
    rw [Ring.step, state?_map, CircularBuffer.peek, decide_eq_true released.used] at done
    cases done
    exact iff_of_true released not_false
  | readPtrs =>
    rw [Ring.step] at done
    obtain ⟨_, done⟩ := attempt_state?.mp done
    obtain ⟨_, _, done⟩ := ok_of_bind done
    cases done
    exact iff_of_true released not_false
  | incrWrite len =>
    rw [Ring.step, state?_map] at done
    simp only [incrWrite, withRoom, available_empty released] at done
    simp only [fillsRing]
    split_ifs at done with exceeds
    · cases done
      exact iff_of_true released (by omega)
    · obtain ⟨_, done⟩ := attempt_state?.mp done
      obtain ⟨_, _, done⟩ := ok_of_bind done
      obtain ⟨used, sum, done⟩ := ok_of_bind done
      cases done
      rw [checkedAdd] at sum
      split_ifs at sum
      cases sum
      constructor
      · rintro ⟨still, -⟩
        simp only at still
        omega
      · intro quiet
        exact ⟨by simp only; omega, released.data⟩
  | incrRead len =>
    rw [Ring.step, state?_map] at done
    simp only [incrRead] at done
    split_ifs at done with exceeds
    · cases done
      exact iff_of_true released not_false
    · obtain ⟨_, done⟩ := attempt_state?.mp done
      obtain ⟨_, _, done⟩ := ok_of_bind done
      obtain ⟨used, difference, done⟩ := ok_of_bind done
      cases done
      rw [checkedSub] at difference
      split_ifs at difference
      cases difference
      exact iff_of_true ⟨by simp only; omega, released.data⟩ not_false
  | clear =>
    cases done
    exact iff_of_true ⟨rfl, released.data⟩ not_false
  | free =>
    cases done
    exact iff_of_true ⟨rfl, rfl⟩ not_false

end

end Secbuf.Filling
