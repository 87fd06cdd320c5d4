import Secbuf.BufferScript

/-! Other ways in and out of a buffer, against the copying calls: the vectorised copy, and the
slices that are handed out for the caller to fill or to look at before the cursor moves. -/

namespace Secbuf.ZeroCopy
open Calls Storage BufferCore BufferOps BufferScript

/-- `get_write_ptr(bytes.len())`, the slice filled, then `incr_write_pos`. -/
def putThrough (bytes : List UInt8) : BufferM Unit := do
  let region ← getWritePtr bytes.length
  Buffer.fillRegion region 0 bytes
  Buffer.incrWritePos bytes.length

/-- `get_ptr(len)`, then `incr_pos`. -/
def getThrough (len : Nat) : BufferM (List UInt8) := do
  let bytes ← getPtr len
  Buffer.incrPos len
  pure bytes

section
variable {b : Buffer}

/-- In every state and for every slice, the three bodies of `put_bytes_fast` do what `put_bytes`
does, to the last byte of the storage. -/
theorem put_bytes_fast_agrees (reach : ReachableWrapping b) (target : Target) (bytes : Slice) :
    putBytesFast target bytes.val b = putBytes bytes.val b :=
  calc
    putBytesFast target bytes.val b
      = if b.pos + bytes.val.length ≤ b.data.len then .ok () (stored b bytes.val)
        else .err .bufferOverflow b := putBytesFast_spec reach.valid target bytes.2
    _ = putBytes bytes.val b := (putBytes_spec reach.valid bytes.2).symm

theorem put_bytes_fast_agrees_seventy :
    ∃ start b, Buffer.new 72 = .ok start ∧ step (.putByte 1) start = .ok .unit b ∧
      putBytesFast (.x86_64 true) (ByteVec.zeros 70) b = putBytes (ByteVec.zeros 70) b := by
  obtain ⟨start, b, made, taken⟩ : ∃ start b, Buffer.new 72 = .ok start ∧
      step (.putByte 1) start = .ok .unit b := ⟨_, _, rfl, rfl⟩
  have run : Reaches SteppedWrapping start b :=
    .single ⟨.putByte 1, Or.inl (by rw [Stepped, taken]; rfl)⟩
  have seventy : (ByteVec.zeros 70).length < 2 ^ 63 := by
    rw [ByteVec.zeros_length]
    decide
  exact ⟨start, b, made, taken, put_bytes_fast_agrees ⟨start, .new made, run⟩ (.x86_64 true)
    ⟨ByteVec.zeros 70, seventy⟩⟩

theorem incrWritePos_inside (valid : Valid b) {n : Nat} (inside : b.pos + n ≤ b.data.len)
    (small : b.data.len ≤ BUF_MAX_SIZE) :
    Buffer.incrWritePos n b = .ok () ⟨b.data, b.pos + n, max b.len (b.pos + n)⟩ := by
  have sum : usizeAdd b.pos n = b.pos + n :=
    valid.add_pos (by simp only [BUF_MAX_SIZE] at small; omega)
  have grown : b.growData (b.pos + n) = .ok b.data := by
    unfold Buffer.growData
    rw [if_neg (by omega)]
  have step : ¬ n > BUF_MAX_INCR := by
    simp only [BUF_MAX_SIZE] at small
    simp only [BUF_MAX_INCR]
    omega
  have length : (if b.pos + n > b.len then b.pos + n else b.len) = max b.len (b.pos + n) := by
    split_ifs <;> omega
  unfold Buffer.incrWritePos
  simp only [if_neg step, sum]
  rw [if_neg (by omega), grown, ← length]

theorem putThrough_eq (valid : Valid b) (small : b.data.len ≤ BUF_MAX_SIZE) (bytes : Slice) :
    putThrough bytes.val b = putBytes bytes.val b := by
  have handed := getWritePtr_spec valid bytes.val.length
  rw [putBytes_spec valid bytes.2]
  unfold putThrough
  by_cases fits : b.pos + bytes.val.length ≤ b.data.len
  · have length : bytes.val.length ≤ 1000000000 := by simp only [BUF_MAX_SIZE] at small; omega
    have filled : Buffer.fillRegion ⟨b.pos, bytes.val.length⟩ 0 bytes.val b =
        .ok () { b with data := b.data.store b.pos bytes.val } :=
      (fillRegion_inside fits 0 bytes.val).trans (if_pos (Nat.zero_add _).le)
    rw [if_pos ⟨length, fits⟩] at handed
    rw [if_pos fits, bind_of_ok handed, bind_of_ok filled]
    -- the storage has the bytes; the cursor and the length have yet to follow
    have kept : (b.data.store b.pos bytes.val).len = b.data.len := ByteVec.len_store fits
    have after : Valid { b with data := b.data.store b.pos bytes.val } :=
      ⟨valid.pos_le, kept.symm ▸ valid.len_le⟩
    exact incrWritePos_inside after (kept.symm ▸ fits) (kept.symm ▸ small)
  · rw [if_neg (by omega)] at handed
    rw [if_neg fits, bind_of_err handed]

theorem getThrough_eq (valid : Valid b) {len : Nat} (small : len ≤ BUF_MAX_INCR) :
    getThrough len b = getBytes len b := by
  have shown := getPtr_spec valid len
  have moved := incrPos_spec valid small
  simp only [BUF_MAX_INCR] at small
  rw [getBytes_spec valid (nowrap valid (by omega))]
  unfold getThrough
  by_cases inside : b.pos + len ≤ b.len
  · rw [if_pos ⟨small, inside⟩] at shown
    rw [if_pos inside] at moved ⊢
    rw [bind_of_ok shown, bind_of_ok moved, pure_apply]
  · rw [if_neg (by omega)] at shown
    rw [if_neg inside, bind_of_err shown]

/-- In every state with no more data than a buffer may be made with: `get_write_ptr` is refused
exactly where `put_bytes` is, and filling its slice and moving the cursor is `put_bytes`; looking
with `get_ptr` and moving the cursor is `get_bytes`. -/
theorem zero_copy_agrees (reach : ReachableWrapping b) (small : b.data.len ≤ BUF_MAX_SIZE) :
    (∀ bytes : Slice,
      ((∃ region t, getWritePtr bytes.val.length b = .ok region t) ↔
        ∃ t, putBytes bytes.val b = .ok () t) ∧
      putThrough bytes.val b = putBytes bytes.val b) ∧
    ∀ len ≤ BUF_MAX_INCR, getThrough len b = getBytes len b := by
  have valid := reach.valid
  refine ⟨fun bytes => ⟨?_, putThrough_eq valid small bytes⟩, fun len short => getThrough_eq valid short⟩
  rw [getWritePtr_spec valid, putBytes_spec valid bytes.2]
  by_cases fits : b.pos + bytes.val.length ≤ b.data.len
  · have length : bytes.val.length ≤ 1000000000 := by simp only [BUF_MAX_SIZE] at small; omega
    rw [if_pos ⟨length, fits⟩, if_pos fits]
    exact iff_of_true ⟨_, _, rfl⟩ ⟨_, rfl⟩
  · rw [if_neg (by omega), if_neg fits]
    simp

theorem zero_copy_agrees_straddling :
    ∃ start b, Buffer.new 6 = .ok start ∧
      exec (fun b op => (step op b).state?) start [.setLen 2, .setPos 1] = some b ∧
      putThrough [7, 8, 9] b = putBytes [7, 8, 9] b ∧ getThrough 1 b = getBytes 1 b := by
  obtain ⟨start, b, made, script, small⟩ : ∃ start b, Buffer.new 6 = .ok start ∧
      exec (fun b op => (step op b).state?) start [.setLen 2, .setPos 1] = some b ∧
      b.data.len ≤ BUF_MAX_SIZE := ⟨_, _, rfl, rfl, by decide⟩
  obtain ⟨puts, gets⟩ := zero_copy_agrees (.of_exec (.new made) script) small
  exact ⟨start, b, made, script, (puts ⟨[7, 8, 9], by decide⟩).2, gets 1 (by decide)⟩

end

end Secbuf.ZeroCopy
