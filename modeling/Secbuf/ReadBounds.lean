import Secbuf.BufferScript

/-! The bound of the raw readers at the full width of a length. It adds the length to the cursor
before it compares, so a length near 2^64 brings the sum round to a small number. -/

namespace Secbuf.ReadBounds
open Calls Storage BufferCore BufferOps BufferScript

/-- What is asked of a reader of `len` bytes, run on `b`: it answers with the bytes in front of the
cursor, inside the length, exactly where there are that many left, and with an error that changes
nothing elsewhere; where `get_ptr` takes lengths of that size, the two answer alike. -/
structure Bounded (len : Nat) (read : BufferM (List UInt8)) (b : Buffer) : Prop where
  ok_iff : (∃ bytes t, read b = .ok bytes t) ↔ len ≤ b.remaining
  err_iff : (∃ error t, read b = .err error t) ↔ b.remaining < len
  handed : ∀ bytes t, read b = .ok bytes t →
    bytes = (b.data.bytes.drop b.pos).take len ∧ b.pos + len ≤ b.len ∧ t = { b with pos := b.pos + len }
  unchanged : ∀ error t, read b = .err error t → t = b
  like_ptr : len ≤ 1000000000 →
    ((∃ bytes t, read b = .ok bytes t) ↔ ∃ bytes t, getPtr len b = .ok bytes t) ∧
      ((∃ error t, read b = .err error t) ↔ ∃ error t, getPtr len b = .err error t)

/-- The sum of cursor and length fits 64 bits, or is above the buffer's length even as it wraps. -/
def SumKept (len : Nat) (b : Buffer) : Prop := b.pos + len < 2 ^ 64 ∨ b.len < usizeAdd b.pos len

section
variable {b : Buffer} {len : Nat} {read : BufferM (List UInt8)}

/-- Past 64 bits the check compares what is left of the sum; where it passes, the slice is made
outside the allocation. -/
theorem getBytes_wrapped (wraps : 2 ^ 64 ≤ b.pos + len) :
    getBytes len b =
      if b.len < usizeAdd b.pos len then .err .bufferOverflow b else .fault .undefinedBehaviour := by
  have outside : ¬ b.pos + len ≤ b.data.capacity := by
    have bound := b.data.capacity_lt
    simp only [ByteVec.capacity]
    omega
  unfold getBytes checkedGet
  by_cases above : b.len < usizeAdd b.pos len
  · rw [if_pos above, if_pos above]
  · rw [if_neg above, if_neg above]
    unfold getBytesUnchecked getRaw ByteVec.read
    rw [if_neg outside]

theorem bounded_of_ok (valid : Valid b) (inside : b.pos + len ≤ b.len)
    (rule : read b = .ok (ahead b len) (advance b len)) : Bounded len read b := by
  have room : len ≤ b.remaining := by
    unfold Buffer.remaining
    omega
  refine ⟨iff_of_true ⟨_, _, rule⟩ room, iff_of_false ?_ (by omega), ?_, ?_, ?_⟩
  · rintro ⟨error, t, failed⟩
    cases rule.symm.trans failed
  · intro bytes t done
    cases rule.symm.trans done
    exact ⟨rfl, inside, rfl⟩
  · intro error t failed
    cases rule.symm.trans failed
  · intro small
    have sibling := getPtr_spec valid len
    rw [if_pos ⟨small, inside⟩] at sibling
    simp [rule, sibling]

theorem bounded_of_err (valid : Valid b) (outside : ¬ b.pos + len ≤ b.len) {error : BufferError}
    (rule : read b = .err error b) : Bounded len read b := by
  have cursor := valid.pos_le
  have short : b.remaining < len := by
    unfold Buffer.remaining
    omega
  refine ⟨iff_of_false ?_ (by omega), iff_of_true ⟨_, _, rule⟩ short, ?_, ?_, ?_⟩
  · rintro ⟨bytes, t, done⟩
    cases rule.symm.trans done
  · intro bytes t done
    cases rule.symm.trans done
  · intro other t failed
    cases rule.symm.trans failed
    rfl
  · intro small
    have sibling := getPtr_spec valid len
    rw [if_neg (by omega)] at sibling
    simp [rule, sibling]

theorem getBytes_bounded_iff (valid : Valid b) (len : Nat) :
    Bounded len (getBytes len) b ↔ SumKept len b := by
  have cursor := valid.pos_le
  have bound := len_lt b.data
  have within := valid.len_le
  constructor
  · intro bounded
    by_contra wrapped
    obtain ⟨wraps, passes⟩ := not_or.mp wrapped
    have rule := getBytes_wrapped (by omega : 2 ^ 64 ≤ b.pos + len)
    rw [if_neg passes] at rule
    -- there are not that many bytes left, and yet there is no error
    obtain ⟨error, t, failed⟩ := bounded.err_iff.mpr (by unfold Buffer.remaining; omega)
    cases rule.symm.trans failed
  · intro kept
    by_cases fits : b.pos + len < 2 ^ 64
    · have rule := getBytes_spec valid fits
      by_cases inside : b.pos + len ≤ b.len
      · rw [if_pos inside] at rule
        exact bounded_of_ok valid inside rule
      · rw [if_neg inside] at rule
        exact bounded_of_err valid inside rule
    · have rule := getBytes_wrapped (by omega : 2 ^ 64 ≤ b.pos + len)
      rw [if_pos (kept.resolve_left fits)] at rule
      exact bounded_of_err valid (by omega) rule

/-- In every state, `get_bytes` and `get_bytes_ref` keep to their bound, with a slice inside the
length and the cursor behind it, exactly where the sum of cursor and length is not brought round
to a number that is too small. -/
theorem readers_bounded_iff (reach : ReachableWrapping b) (len : Nat) :
    (Bounded len (getBytes len) b ∧ Bounded len (getBytesRef len) b) ↔ SumKept len b := by
  have one := getBytes_bounded_iff reach.valid len
  exact ⟨fun both => one.mp both.1, fun kept => ⟨one.mpr kept, one.mpr kept⟩⟩

theorem readers_bounded_iff_eight :
    ∃ start b, Buffer.new 8 = .ok start ∧
      exec (fun b op => (step op b).state?) start [.setLen 8, .setPos 4] = some b ∧
      Bounded 4 (getBytes 4) b ∧ (∃ bytes t, getBytes 4 b = .ok bytes t) := by
  obtain ⟨start, b, made, script, left, low⟩ : ∃ start b, Buffer.new 8 = .ok start ∧
      exec (fun b op => (step op b).state?) start [.setLen 8, .setPos 4] = some b ∧
      4 ≤ b.remaining ∧ b.pos = 4 := ⟨_, _, rfl, rfl, le_rfl, rfl⟩
  have reach : ReachableWrapping b := .of_exec (.new made) script
  have bounded := ((readers_bounded_iff reach 4).mpr (Or.inl (by omega))).1
  exact ⟨start, b, made, script, bounded, bounded.ok_iff.mpr left⟩

/-- Eight bytes with the cursor at the fourth: a length of 2^64 - 2 passes the check, the sum
being two, though four bytes are left. -/
theorem reader_bound_wraps :
    ∃ start b, Buffer.new 8 = .ok start ∧
      exec (fun b op => (step op b).state?) start [.setLen 8, .setPos 4] = some b ∧
      b.remaining = 4 ∧ usizeAdd b.pos (2 ^ 64 - 2) ≤ b.len ∧
      getBytesRef (2 ^ 64 - 2) b = .fault .undefinedBehaviour ∧
      ¬ Bounded (2 ^ 64 - 2) (getBytesRef (2 ^ 64 - 2)) b := by
  obtain ⟨start, b, made, script, left, passes, low⟩ : ∃ start b, Buffer.new 8 = .ok start ∧
      exec (fun b op => (step op b).state?) start [.setLen 8, .setPos 4] = some b ∧
      b.remaining = 4 ∧ usizeAdd b.pos (2 ^ 64 - 2) ≤ b.len ∧ b.pos = 4 :=
    ⟨_, _, rfl, rfl, rfl, by decide, rfl⟩
  have rule : getBytesRef (2 ^ 64 - 2) b = .fault .undefinedBehaviour := by
    have wraps : 2 ^ 64 ≤ b.pos + (2 ^ 64 - 2) := by omega
    have wrapped := getBytes_wrapped wraps
    rw [if_neg (by omega)] at wrapped
    exact wrapped
  refine ⟨start, b, made, script, left, passes, rule, fun bounded => ?_⟩
  obtain ⟨error, t, failed⟩ := bounded.err_iff.mpr (by omega)
  cases rule.symm.trans failed

end

end Secbuf.ReadBounds
