import Secbuf.ReadBounds

/-! Which safe calls on a buffer do not come back. A growing call asks for at most `BUF_MAX_SIZE`
bytes, which no block size can bring past the largest allocation; only `reserve` can ask for more.
Leaving the language takes the one check that passes on a wrapped sum. -/

namespace Secbuf.SafeFaults
open Calls Storage BufferCore BufferOps BufferScript ReadBounds

/-- The bound check of a raw reader passes on a sum that has wrapped. -/
def PassesWrapped (b : Buffer) : BufferOp → Prop
  | .getBytes n | .getBytesRef n => 2 ^ 64 ≤ b.pos + n ∧ usizeAdd b.pos n ≤ b.len
  | _ => False

def StoresOutside (b : Buffer) : BufferOp → Prop
  | .asMutSlice offset src => b.len < offset + src.val.length
  | .getWritePtr len offset src =>
    len ≤ 1000000000 ∧ b.pos + len ≤ b.data.len ∧ len < offset + src.val.length
  | _ => False

/-- A block of the size `reserve` asks for is larger than any allocation. -/
def Overgrows (b : Buffer) : BufferOp → Prop
  | .reserve n => b.data.spare.length < n ∧
    2 ^ 63 ≤ max 8 (max (2 * b.data.capacity) (b.data.len + n))
  | _ => False

section
variable {α : Type} {b : Buffer}

theorem fault_ite {p : Prop} [Decidable p] {first second : Outcome Buffer BufferError α}
    {reason : Fault} (yes : p → first ≠ .fault reason) (no : ¬ p → second ≠ .fault reason) :
    (if p then first else second) ≠ .fault reason := by
  by_cases met : p
  · rw [if_pos met]
    exact yes met
  · rw [if_neg met]
    exact no met

theorem returns_of_rule {p : Prop} [Decidable p] {outcome : Outcome Buffer BufferError α} {value : α}
    {error : BufferError} {t u : Buffer}
    (rule : outcome = if p then .ok value t else .err error u) (reason : Fault) :
    outcome ≠ .fault reason := by
  rw [rule]
  apply fault_ite
  · exact fun _ => nofun
  · exact fun _ => nofun

theorem resize_returns (v : ByteVec) {n : Nat} (small : n ≤ BUF_MAX_SIZE) : ∃ w, v.resize n = .ok w := by
  unfold ByteVec.resize
  by_cases shorter : n ≤ v.len
  · exact ⟨_, if_pos shorter⟩
  · rw [if_neg shorter]
    have reserved : ∃ u, v.reserve (n - v.len) = .ok u := by
      unfold ByteVec.reserve
      by_cases enough : n - v.len ≤ v.spare.length
      · exact ⟨v, if_pos enough⟩
      · have fits : max 8 (max (2 * v.capacity) (v.len + (n - v.len))) < 2 ^ 63 := by
          simp only [BUF_MAX_SIZE] at small
          simp only [ByteVec.len, ByteVec.capacity] at shorter enough ⊢
          omega
        rw [if_neg enough]
        exact ⟨_, dif_pos fits⟩
    obtain ⟨u, reserved⟩ := reserved
    exact ⟨_, by rw [reserved]⟩

theorem growData_returns (b : Buffer) {n : Nat} (small : n ≤ BUF_MAX_SIZE) :
    ∃ data, b.growData n = .ok data := by
  unfold Buffer.growData
  split_ifs
  · exact resize_returns b.data small
  · exact ⟨_, rfl⟩

theorem setLen_returns (n : Nat) (reason : Fault) : Buffer.setLen n b ≠ .fault reason := by
  apply fault_ite
  · exact fun _ => nofun
  · intro small
    obtain ⟨data, grown⟩ := growData_returns b (Nat.le_of_not_lt small)
    rw [grown]
    exact nofun

theorem incrLen_returns (n : Nat) (reason : Fault) : Buffer.incrLen n b ≠ .fault reason := by
  apply fault_ite
  · exact fun _ => nofun
  · intro _
    apply fault_ite
    · exact fun _ => nofun
    · intro small
      obtain ⟨data, grown⟩ := growData_returns b (Nat.le_of_not_lt small)
      rw [grown]
      exact nofun

theorem incrWritePos_returns (n : Nat) (reason : Fault) :
    Buffer.incrWritePos n b ≠ .fault reason := by
  apply fault_ite
  · exact fun _ => nofun
  · intro _
    apply fault_ite
    · exact fun _ => nofun
    · intro small
      obtain ⟨data, grown⟩ := growData_returns b (Nat.le_of_not_lt small)
      rw [grown]
      exact nofun

theorem bufferResize_returns (n : Nat) (reason : Fault) : Buffer.resize n b ≠ .fault reason := by
  apply fault_ite
  · exact fun _ => nofun
  · intro small
    obtain ⟨data, resized⟩ := resize_returns b.data (Nat.le_of_not_lt small)
    rw [resized]
    exact nofun

theorem putString_returns (valid : Valid b) (s : List UInt8) (reason : Fault) :
    putString s b ≠ .fault reason := by
  rw [putString_spec valid]
  split_ifs <;> exact nofun

theorem getString_returns (valid : Valid b) (reason : Fault) : getString b ≠ .fault reason := by
  rw [getString_spec valid]
  split_ifs <;> exact nofun

theorem eatString_returns (valid : Valid b) (reason : Fault) : eatString b ≠ .fault reason := by
  rw [eatString_spec valid]
  split_ifs <;> exact nofun

theorem getByte_returns (valid : Valid b) (reason : Fault) : getByte b ≠ .fault reason := by
  rw [getByte_spec valid]
  split_ifs <;> exact nofun

/-- A raw reader faults where its check passes on a wrapped sum, and leaves the language there. -/
theorem getBytes_fault_iff (valid : Valid b) (n : Nat) (reason : Fault) :
    getBytes n b = .fault reason ↔
      reason = .undefinedBehaviour ∧ 2 ^ 64 ≤ b.pos + n ∧ usizeAdd b.pos n ≤ b.len := by
  by_cases wraps : 2 ^ 64 ≤ b.pos + n
  · rw [getBytes_wrapped wraps]
    by_cases above : b.len < usizeAdd b.pos n
    · rw [if_pos above]
      exact iff_of_false nofun (by omega)
    · rw [if_neg above]
      simp only [Outcome.fault.injEq, wraps, not_lt.mp above, and_true, eq_comm]
  · have returns := returns_of_rule (getBytes_spec valid (Nat.lt_of_not_le wraps)) reason
    exact iff_of_false returns (by omega)

theorem editRegion_fault_iff {handed : BufferM Buffer.Region} {region : Buffer.Region}
    (given : handed b = .ok region b) (bound : region.start + region.length ≤ b.data.len)
    (offset : Nat) (src : List UInt8) (reason : Fault) :
    editRegion handed offset src b = .fault reason ↔
      reason = .panic ∧ region.length < offset + src.length := by
  rw [editRegion_inside given bound]
  by_cases room : offset + src.length ≤ region.length
  · rw [if_pos room]
    exact iff_of_false nofun (by omega)
  · rw [if_neg room]
    simp only [Outcome.fault.injEq, not_le.mp room, and_true, eq_comm]

theorem asMutSlice_fault_iff (valid : Valid b) (offset : Nat) (src : List UInt8) (reason : Fault) :
    editRegion Buffer.asMutSlice offset src b = .fault reason ↔
      reason = .panic ∧ b.len < offset + src.length :=
  editRegion_fault_iff (asMutSlice_spec valid) (by simpa using valid.len_le) offset src reason

theorem getWritePtr_fault_iff (valid : Valid b) (len offset : Nat) (src : List UInt8)
    (reason : Fault) :
    editRegion (getWritePtr len) offset src b = .fault reason ↔
      reason = .panic ∧ len ≤ 1000000000 ∧ b.pos + len ≤ b.data.len ∧ len < offset + src.length := by
  have rule := getWritePtr_spec valid len
  by_cases given : len ≤ 1000000000 ∧ b.pos + len ≤ b.data.len
  · rw [if_pos given] at rule
    rw [editRegion_fault_iff rule given.2]
    simp only [given.1, given.2, true_and]
  · rw [if_neg given] at rule
    rw [editRegion_refused rule]
    apply iff_of_false nofun
    rintro ⟨-, small, inside, -⟩
    exact given ⟨small, inside⟩

theorem reserve_fault_iff (n : Nat) (reason : Fault) :
    Buffer.reserve n b = .fault reason ↔ reason = .panic ∧ Overgrows b (.reserve n) := by
  simp only [Overgrows, Buffer.reserve, ByteVec.reserve]
  by_cases enough : n ≤ b.data.spare.length
  · rw [if_pos enough]
    exact iff_of_false nofun (by omega)
  · rw [if_neg enough]
    by_cases fits : max 8 (max (2 * b.data.capacity) (b.data.len + n)) < 2 ^ 63
    · rw [dif_pos fits]
      exact iff_of_false nofun (by omega)
    · rw [dif_neg fits]
      simp only [Outcome.fault.injEq, not_le.mp enough, not_lt.mp fits, and_true, eq_comm]

end

variable {b : Buffer}

theorem step_fault_iff (valid : Valid b) (op : BufferOp) (reason : Fault) :
    step op b = .fault reason ↔
      reason = .undefinedBehaviour ∧ PassesWrapped b op ∨
        reason = .panic ∧ (StoresOutside b op ∨ Overgrows b op) := by
  have back {α : Type} {read : α → Reply} {call : BufferM α} (returns : call b ≠ .fault reason)
      (tame : ¬ PassesWrapped b op ∧ ¬ StoresOutside b op ∧ ¬ Overgrows b op) :
      call.map read b = .fault reason ↔ reason = .undefinedBehaviour ∧ PassesWrapped b op ∨
        reason = .panic ∧ (StoresOutside b op ∨ Overgrows b op) := by
    rw [map_fault]
    apply iff_of_false returns
    simp only [tame, or_self, and_false, not_false_eq_true]
  have none : ¬ False ∧ ¬ False ∧ ¬ False := ⟨id, id, id⟩
  cases op with
  | setPos pos => exact back (returns_of_rule (p := ¬ pos > b.len) (by rw [ite_not]; rfl) reason) none
  | setLen len => exact back (setLen_returns len reason) none
  | incrPos incr =>
    exact back (fault_ite (fun _ => nofun) fun _ => nofun) none
  | decrPos decr => exact back (fault_ite (fun _ => nofun) fun _ => nofun) none
  | incrLen incr => exact back (incrLen_returns incr reason) none
  | incrWritePos incr => exact back (incrWritePos_returns incr reason) none
  | resize newSize => exact back (bufferResize_returns newSize reason) none
  | reserve additional =>
    rw [step, map_fault, reserve_fault_iff]
    simp only [PassesWrapped, StoresOutside, and_false, false_or]
  | reset | burn | zeroize | shrinkToFit | clone | remaining =>
    exact iff_of_false nofun (by simp [PassesWrapped, StoresOutside, Overgrows])
  | asSlice => exact back (by rw [asSliceCall_spec valid]; exact nofun) none
  | asMutSlice offset src =>
    rw [step, map_fault, asMutSlice_fault_iff valid]
    simp only [PassesWrapped, StoresOutside, Overgrows, and_false, false_or, or_false]
  | putByte val => exact back (returns_of_rule (putByte_spec valid val) reason) none
  | putU32 val => exact back (returns_of_rule (putU32_spec valid val) reason) none
  | putU64 val => exact back (returns_of_rule (putU64_spec valid val) reason) none
  | putBytes bytes => exact back (returns_of_rule (putBytes_spec valid bytes.2) reason) none
  | putBytesFast target bytes =>
    exact back (returns_of_rule (putBytesFast_spec valid target bytes.2) reason) none
  | putString s => exact back (putString_returns valid s.val reason) none
  | getByte => exact back (getByte_returns valid reason) none
  | getBool =>
    apply back _ none
    rw [getBool_eq, Ne, map_fault]
    exact getByte_returns valid reason
  | getU32 => exact back (returns_of_rule (getU32_spec valid) reason) none
  | getU64 => exact back (returns_of_rule (getU64_spec valid) reason) none
  | getBytes len | getBytesRef len =>
    rw [step, map_fault]
    apply (getBytes_fault_iff valid len reason).trans
    simp only [PassesWrapped, StoresOutside, Overgrows, or_self, and_false, or_false]
  | getPtr len => exact back (returns_of_rule (getPtr_spec valid len) reason) none
  | getString => exact back (getString_returns valid reason) none
  | eatString => exact back (eatString_returns valid reason) none
  | getWritePtr len offset src =>
    rw [step, map_fault, getWritePtr_fault_iff valid]
    simp only [PassesWrapped, StoresOutside, Overgrows, and_false, false_or, or_false]

/-- In every state that safe calls reach in a build without overflow checks: a safe call leaves the
language exactly where a raw reader's check passes on a wrapped sum, and panics exactly where the
holder of a mutable slice stores past its end or `reserve` asks for more than an allocation can be.
Every other call, with any argument, comes back with a value or an error. -/
theorem safe_calls_fault_iff (reach : ReachableWrapping b) (op : BufferOp) :
    (step op b = .fault .undefinedBehaviour ↔ PassesWrapped b op) ∧
      (step op b = .fault .panic ↔ StoresOutside b op ∨ Overgrows b op) := by
  rw [step_fault_iff reach.valid, step_fault_iff reach.valid]
  simp

theorem safe_calls_fault_wrapped :
    ∃ start b, Buffer.new 4 = .ok start ∧
      exec (fun b op => (step op b).state?) start [.putBytes ⟨[1, 2, 3], by decide⟩] = some b ∧
      step (.getBytes (2 ^ 64 - 1)) b = .fault .undefinedBehaviour ∧
      step (.getBytes 1) b ≠ .fault .undefinedBehaviour ∧
      step (.asMutSlice 2 ⟨[7, 7], by decide⟩) b = .fault .panic := by
  obtain ⟨start, b, made, script, pos, len⟩ : ∃ start b, Buffer.new 4 = .ok start ∧
      exec (fun b op => (step op b).state?) start [.putBytes ⟨[1, 2, 3], by decide⟩] = some b ∧
      b.pos = 3 ∧ b.len = 3 := ⟨_, _, rfl, rfl, rfl, rfl⟩
  have reach : ReachableWrapping b := .of_exec (.new made) script
  refine ⟨start, b, made, script, (safe_calls_fault_iff reach _).1.mpr ?_,
    fun faulted => ?_, (safe_calls_fault_iff reach _).2.mpr (Or.inl ?_)⟩
  · rw [PassesWrapped, pos, len]
    decide
  · have passes := (safe_calls_fault_iff reach _).1.mp faulted
    rw [PassesWrapped, pos, len] at passes
    revert passes
    decide
  · rw [StoresOutside, len]
    decide

end Secbuf.SafeFaults
