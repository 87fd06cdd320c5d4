import Secbuf.BufferScript

/-! What an error leaves behind. Every operation that checks once checks before it does anything;
the strings check twice, and have written or read their prefix by the second time. -/

namespace Secbuf.FailedCalls
open Calls BigEndian Storage BufferCore BufferOps BufferScript

def writing : BufferOp → Bool
  | .setPos _ | .setLen _ | .incrPos _ | .decrPos _ | .incrLen _ | .incrWritePos _ | .resize _ => true
  | .putByte _ | .putU32 _ | .putU64 _ | .putBytes _ | .putBytesFast .. | .putString _ => true
  | _ => false

def reading : BufferOp → Bool
  | .getByte | .getBool | .getU32 | .getU64 | .getBytes _ | .getBytesRef _ => true
  | .getString | .eatString => true
  | _ => false

/-- There is room for the prefix of a string at the cursor, and not for its body behind it. -/
def PrefixFits (b : Buffer) : BufferOp → Prop
  | .putString s => s.val.length ≤ MAX_STRING_LEN ∧ b.pos + 4 ≤ b.data.len ∧
      b.data.len < b.pos + 4 + s.val.length
  | _ => False

/-- There is a prefix to read at the cursor, and it announces more than a string may have or than
there is behind it. -/
def PrefixReads (b : Buffer) : BufferOp → Prop
  | .getString | .eatString => b.pos + 4 ≤ b.len ∧
      (MAX_STRING_LEN < announced b ∨ b.len < b.pos + 4 + announced b)
  | _ => False

section
variable {b : Buffer}

theorem spares_grown {grown : Except Fault ByteVec} {place : ByteVec → Buffer} :
    (match grown with
      | .error reason => .fault reason
      | .ok data => .ok () (place data) : Outcome Buffer BufferError Unit).Spares b := by
  cases grown with
  | error reason => exact spares_fault
  | ok data => exact spares_ok

theorem spares_setPos (n : Nat) : (Buffer.setPos n).Spares b := spares_ite spares_err spares_ok
theorem spares_incrPos (n : Nat) : (Buffer.incrPos n).Spares b := spares_ite spares_err spares_ok
theorem spares_decrPos (n : Nat) : (Buffer.decrPos n).Spares b := spares_ite spares_err spares_ok
theorem spares_setLen (n : Nat) : (Buffer.setLen n).Spares b := spares_ite spares_err spares_grown
theorem spares_resize (n : Nat) : (Buffer.resize n).Spares b := spares_ite spares_err spares_grown

theorem spares_incrLen (n : Nat) : (Buffer.incrLen n).Spares b :=
  spares_ite spares_err (spares_ite spares_err spares_grown)

theorem spares_incrWritePos (n : Nat) : (Buffer.incrWritePos n).Spares b :=
  spares_ite spares_err (spares_ite spares_err spares_grown)

/-- A call by the common rule: all of its work, or none. -/
theorem spares_of_rule {α : Type} {call : BufferM α} {value : α} {p : Prop} [Decidable p] {t : Buffer}
    {error : BufferError} (rule : call b = if p then .ok value t else .err error b) :
    call.Spares b := by
  rw [Call.Spares, rule]
  exact spares_ite spares_ok spares_err

theorem spares_getBytes (n : Nat) : (getBytes n).Spares b := fun _ _ failed => getBytes_err failed

theorem spares_getByte (valid : Valid b) : getByte.Spares b := by
  rw [Call.Spares, getByte_spec valid]
  split_ifs
  · exact spares_ok
  · exact spares_err

theorem spares_getBool (valid : Valid b) : getBool.Spares b := by
  rw [Call.Spares, getBool_eq]
  exact spares_map.mpr (spares_getByte valid)

theorem spares_always {α β : Type} {call : BufferM α} {read : α → β} (spares : call.Spares b) :
    (call.map read).Spares b ↔ ¬ False := iff_of_true (spares_map.mpr spares) not_false

theorem not_spares {α : Type} {call : BufferM α} {error : BufferError} {t : Buffer}
    (failed : call b = .err error t) (moved : t.pos ≠ b.pos) : ¬ call.Spares b :=
  fun spares => moved (congrArg Buffer.pos (spares error t failed))

theorem spares_putString (valid : Valid b) (s : Slice) :
    (putString s.val).Spares b ↔ ¬ PrefixFits b (.putString s) := by
  have rule := putString_spec valid s.val
  have outcome : (putString s.val).Spares b ↔ (putString s.val b).Spares b := Iff.rfl
  unfold PrefixFits
  split_ifs at rule with long body room
  · rw [outcome, rule]
    exact iff_of_true spares_err (by omega)
  · rw [outcome, rule]
    exact iff_of_true spares_ok (by omega)
  · refine iff_of_false (not_spares rule ?_) (not_not_intro ⟨by omega, room, by omega⟩)
    simp only [stored, length_bigEndian]
    omega
  · rw [outcome, rule]
    exact iff_of_true spares_err (by omega)

theorem spares_prefixed {α : Type} {read : BufferM α} {value : α} {late : BufferError}
    (rule : read b =
      if b.pos + 4 ≤ b.len then
        if announced b > MAX_STRING_LEN then .err .invalidString (advance b 4)
        else if b.pos + 4 + announced b ≤ b.len then .ok value (advance b (4 + announced b))
        else .err late (advance b 4)
      else .err .bufferOverflow b) :
    read.Spares b ↔
      ¬ (b.pos + 4 ≤ b.len ∧ (MAX_STRING_LEN < announced b ∨ b.len < b.pos + 4 + announced b)) := by
  have moved : (advance b 4).pos ≠ b.pos := by
    simp only [advance]
    omega
  have outcome : read.Spares b ↔ (read b).Spares b := Iff.rfl
  split_ifs at rule with inside long body
  · exact iff_of_false (not_spares rule moved) (not_not_intro ⟨inside, Or.inl long⟩)
  · rw [outcome, rule]
    exact iff_of_true spares_ok (by omega)
  · exact iff_of_false (not_spares rule moved) (not_not_intro ⟨inside, Or.inr (by omega)⟩)
  · rw [outcome, rule]
    exact iff_of_true spares_err (by omega)

/-- In every state, each setter and writer that fails leaves the buffer as it was, but for a
`put_string` whose prefix has room and whose body has not. -/
theorem failed_write_spares_iff (reach : ReachableWrapping b) {op : BufferOp}
    (listed : writing op = true) : (step op).Spares b ↔ ¬ PrefixFits b op := by
  have valid := reach.valid
  cases op with
  | setPos pos => exact spares_always (spares_setPos pos)
  | setLen len => exact spares_always (spares_setLen len)
  | incrPos incr => exact spares_always (spares_incrPos incr)
  | decrPos decr => exact spares_always (spares_decrPos decr)
  | incrLen incr => exact spares_always (spares_incrLen incr)
  | incrWritePos incr => exact spares_always (spares_incrWritePos incr)
  | resize newSize => exact spares_always (spares_resize newSize)
  | putByte val => exact spares_always (spares_of_rule (putByte_spec valid val))
  | putU32 val => exact spares_always (spares_of_rule (putU32_spec valid val))
  | putU64 val => exact spares_always (spares_of_rule (putU64_spec valid val))
  | putBytes bytes => exact spares_always (spares_of_rule (putBytes_spec valid bytes.2))
  | putBytesFast target bytes =>
    exact spares_always (spares_of_rule (putBytesFast_spec valid target bytes.2))
  | putString s => exact spares_map.trans (spares_putString valid s)
  | _ => cases listed

theorem failed_write_spares_iff_u64 :
    ∃ start, Buffer.new 6 = .ok start ∧ (step (.putU64 1)).Spares start ∧
      ∃ error t, step (.putU64 1) start = .err error t := by
  obtain ⟨start, made, refused⟩ : ∃ start, Buffer.new 6 = .ok start ∧
      ∃ error t, step (.putU64 1) start = .err error t := ⟨_, rfl, _, _, rfl⟩
  have reach : ReachableWrapping start := ⟨start, .new made, .refl⟩
  exact ⟨start, made, (failed_write_spares_iff reach rfl).mpr not_false, refused⟩

/-- A string of three bytes into six: the length is written, and then there is no room for it. -/
theorem failed_put_string_writes :
    ∃ start t, Buffer.new 6 = .ok start ∧
      step (.putString ⟨[7, 8, 9], by decide⟩) start = .err .bufferOverflow t ∧
      start.data.bytes = [0, 0, 0, 0, 0, 0] ∧ t.data.bytes = [0, 0, 0, 3, 0, 0] ∧
      t.pos = start.pos + 4 ∧ t.len = start.len + 4 ∧
      ¬ (step (.putString ⟨[7, 8, 9], by decide⟩)).Spares start := by
  obtain ⟨start, t, made, failed, before, after, pos, len⟩ : ∃ start t, Buffer.new 6 = .ok start ∧
      step (.putString ⟨[7, 8, 9], by decide⟩) start = .err .bufferOverflow t ∧
      start.data.bytes = [0, 0, 0, 0, 0, 0] ∧ t.data.bytes = [0, 0, 0, 3, 0, 0] ∧
      t.pos = start.pos + 4 ∧ t.len = start.len + 4 := ⟨_, _, rfl, rfl, rfl, rfl, rfl, rfl⟩
  exact ⟨start, t, made, failed, before, after, pos, len, not_spares failed (by omega)⟩

/-- In every state, each reader that fails leaves the buffer as it was, but for a string reader
whose prefix is there and asks for too much. -/
theorem failed_read_spares_iff (reach : ReachableWrapping b) {op : BufferOp}
    (listed : reading op = true) : (step op).Spares b ↔ ¬ PrefixReads b op := by
  have valid := reach.valid
  cases op with
  | getByte => exact spares_always (spares_getByte valid)
  | getBool => exact spares_always (spares_getBool valid)
  | getU32 => exact spares_always (spares_of_rule (getU32_spec valid))
  | getU64 => exact spares_always (spares_of_rule (getU64_spec valid))
  | getBytes len => exact spares_always (spares_getBytes len)
  | getBytesRef len => exact spares_always (spares_getBytes len)
  | getString => exact spares_map.trans (spares_prefixed (getString_spec valid))
  | eatString => exact spares_map.trans (spares_prefixed (eatString_spec valid))
  | _ => cases listed

theorem failed_read_spares_iff_u64 :
    ∃ start b, Buffer.new 8 = .ok start ∧
      exec (fun b op => (step op b).state?) start [.putU32 5, .putByte 1, .setPos 0] = some b ∧
      (step .getU64).Spares b ∧ ∃ error t, step .getU64 b = .err error t := by
  obtain ⟨start, b, made, script, refused⟩ : ∃ start b, Buffer.new 8 = .ok start ∧
      exec (fun b op => (step op b).state?) start [.putU32 5, .putByte 1, .setPos 0] = some b ∧
      ∃ error t, step .getU64 b = .err error t := ⟨_, _, rfl, rfl, _, _, rfl⟩
  have spares : (step .getU64).Spares b :=
    (failed_read_spares_iff (.of_exec (.new made) script) rfl).mpr not_false
  exact ⟨start, b, made, script, spares, refused⟩

/-- A prefix of five with one byte behind it: the prefix is consumed, though the read fails. -/
theorem failed_get_string_consumes :
    ∃ start b t, Buffer.new 8 = .ok start ∧
      exec (fun b op => (step op b).state?) start [.putU32 5, .putByte 1, .setPos 0] = some b ∧
      step .getString b = .err .bufferOverflow t ∧ b.pos = 0 ∧ t.pos = 4 ∧
      ¬ (step .getString).Spares b := by
  obtain ⟨start, b, t, made, script, failed, before, after⟩ :
      ∃ start b t, Buffer.new 8 = .ok start ∧
      exec (fun b op => (step op b).state?) start [.putU32 5, .putByte 1, .setPos 0] = some b ∧
      step .getString b = .err .bufferOverflow t ∧ b.pos = 0 ∧ t.pos = 4 :=
    ⟨_, _, _, rfl, rfl, rfl, rfl, rfl⟩
  exact ⟨start, b, t, made, script, failed, before, after, not_spares failed (by omega)⟩

end

end Secbuf.FailedCalls
