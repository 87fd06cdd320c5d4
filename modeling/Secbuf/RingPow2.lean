import Secbuf.PairedCalls
import Secbuf.RingCursors

/-! Rings whose size is a power of two. A ring that masks its cursors and one that takes their
remainder by the size stay together over every script; and a ring made from an exponent is the
ring made of its power, as long as the shift is by that exponent. -/

namespace Secbuf.RingPow2
open Calls Splice RingWindow Storage BufferCore Secbuf.Ring CircularBuffer RingFifo RingCursors
  PairedCalls

/-- The ring with its flag down: it takes the remainder where the other masks. -/
def dividing (r : CircularBuffer) : CircularBuffer := { r with isPow2 := false }

section
variable (r : CircularBuffer)

@[simp] theorem dividing_data : (dividing r).data = r.data := rfl
@[simp] theorem dividing_size : (dividing r).size = r.size := rfl
@[simp] theorem dividing_used : (dividing r).used = r.used := rfl
@[simp] theorem dividing_readPos : (dividing r).readPos = r.readPos := rfl
@[simp] theorem dividing_writePos : (dividing r).writePos = r.writePos := rfl

end

abbrev SameButFlag : Outcome CircularBuffer BufferError RingReply →
    Outcome CircularBuffer BufferError RingReply → Prop :=
  Paired True Eq Eq fun r t =>
    t.data = r.data ∧ t.used = r.used ∧ t.readPos = r.readPos ∧ t.writePos = r.writePos

section
variable {size : Nat} {r : CircularBuffer}

theorem sound_dividing (sound : Sound size r) : Sound size (dividing r) := by
  refine ⟨sound.size_eq, sound.small, ?_, sound.read_lt, sound.read_zero, sound.used_le,
    sound.write_eq, sound.length_eq⟩
  intro flag
  cases flag

theorem dividing_ensureAllocated (r : CircularBuffer) :
    (dividing r).ensureAllocated = dividing r.ensureAllocated := by
  cases r with
  | mk data size used readPos writePos isPow2 => cases data <;> rfl

/-- What is wrapped is no larger than the ring, and then both flags wrap it alike. -/
theorem wrap_dividing (sound : Sound size r) (positive : 0 < size) {pos delta : Nat}
    (pos_le : pos ≤ size) (delta_le : delta ≤ size) :
    wrap pos delta (dividing r).size (dividing r).isPow2 = wrap pos delta r.size r.isPow2 := by
  have small := sound.small
  have sum : pos + delta < 2 ^ 64 := by simp only [MAX_CBUF_SIZE] at small; omega
  have divided := (sound_dividing sound).size_eq
  calc
    wrap pos delta (dividing r).size (dividing r).isPow2
      = .ok ((pos + delta) % size) := by
        rw [divided, wrap_eq positive (sound_dividing sound).pow2 sum]
    _ = wrap pos delta r.size r.isPow2 := by rw [sound.size_eq, wrap_eq positive sound.pow2 sum]

theorem commutes_incrWrite (sound : Sound size r) (positive : 0 < size) (len : Nat) :
    Commutes dividing (incrWrite len) r := by
  unfold Commutes
  rw [incrWrite_spec sound positive, incrWrite_spec (sound_dividing sound) positive, dividing_used]
  by_cases exceeds : len > size - r.used
  · rw [if_pos exceeds, if_pos exceeds]
    rfl
  · rw [if_neg exceeds, if_neg exceeds]
    rfl

theorem commutes_incrRead (sound : Sound size r) (positive : 0 < size) (len : Nat) :
    Commutes dividing (incrRead len) r := by
  unfold Commutes
  rw [incrRead_spec sound positive, incrRead_spec (sound_dividing sound) positive, dividing_used]
  by_cases exceeds : len > r.used
  · rw [if_pos exceeds, if_pos exceeds]
    rfl
  · rw [if_neg exceeds, if_neg exceeds]
    rfl

theorem commutes_write (sound : Sound size r) (data : List UInt8) :
    Commutes dividing (CircularBuffer.write data) r := by
  unfold Commutes
  by_cases empty : data.length = 0
  · simp only [CircularBuffer.write, if_pos empty]
    rfl
  · by_cases fits : data.length ≤ size - r.used
    · obtain ⟨-, buffer, here⟩ := sound.allocated
      have there : (dividing r).ensureAllocated.data = some buffer := by
        rw [dividing_ensureAllocated]
        exact here
      rw [write_fits sound here (Nat.pos_of_ne_zero empty) fits,
        write_fits (sound_dividing sound) there (Nat.pos_of_ne_zero empty) fits,
        dividing_ensureAllocated]
      rfl
    · have exceeds : size - r.used < data.length := by omega
      rw [write_exceeds sound exceeds, write_exceeds (sound_dividing sound) exceeds]
      rfl

theorem reads_alike (sound : Sound size r) (nonempty : r.used ≠ 0) {buffer : List UInt8}
    (here : r.data = some buffer) (output : List UInt8) :
    ∃ copied, r.copyOut buffer output = .ok (min output.length r.used, copied) ∧
      (dividing r).copyOut buffer output = .ok (min output.length r.used, copied) ∧
      wrap (dividing r).readPos (min output.length r.used) (dividing r).size (dividing r).isPow2 =
        wrap r.readPos (min output.length r.used) r.size r.isPow2 := by
  have rep := sound.represents fun _ => by rw [here]; rfl
  have copied := copyOut_spec rep here (Nat.pos_of_ne_zero nonempty) output
  rw [← rep.used_eq] at copied
  have bound := sound.used_le
  have positive : 0 < size := by omega
  have wrapped := wrap_dividing sound positive (sound.read_lt positive).le
    ((min_le_right output.length r.used).trans bound)
  exact ⟨_, copied, copied, wrapped⟩

theorem commutes_read (sound : Sound size r) (output : List UInt8) :
    Commutes dividing (CircularBuffer.read output) r := by
  unfold Commutes CircularBuffer.read
  by_cases empty : r.used = 0
  · simp only [dividing_used, empty, decide_true]
    rfl
  · cases data : r.data with
    | none =>
      simp only [dividing_used, dividing_data, data, empty, decide_false]
      rfl
    | some buffer =>
      obtain ⟨bytes, copied, copied', wrapped⟩ := reads_alike sound empty data output
      simp only [dividing_used, dividing_data, data, empty, decide_false]
      apply Commutes.attempt (f := dividing)
      simp only [copied', copied, ok_bind, wrapped]
      cases wrap r.readPos (min output.length r.used) r.size r.isPow2 with
      | error reason => rfl
      | ok readPos =>
        simp only [ok_bind, dividing_used]
        cases checkedSub r.used (min output.length r.used) <;> rfl

theorem commutes_peek (sound : Sound size r) (output : List UInt8) :
    Commutes dividing (peek output) r := by
  unfold Commutes peek
  by_cases empty : r.used = 0
  · simp only [dividing_used, empty, decide_true]
    rfl
  · cases data : r.data with
    | none =>
      simp only [dividing_used, dividing_data, data, empty, decide_false]
      rfl
    | some buffer =>
      obtain ⟨bytes, copied, copied', wrapped⟩ := reads_alike sound empty data output
      simp only [dividing_used, dividing_data, data, empty, decide_false]
      apply Commutes.attempt (f := dividing)
      simp only [copied', copied, ok_bind, wrapped]
      cases wrap r.readPos (min output.length r.used) r.size r.isPow2 <;> rfl

theorem commutes_writePtr (sound : Sound size r) (len : Nat) :
    Commutes dividing (writePtr len) r := by
  unfold Commutes
  rw [writePtr_spec sound, writePtr_spec (sound_dividing sound), dividing_used, dividing_writePos,
    dividing_ensureAllocated]
  split_ifs <;> rfl

theorem commutes_writeSlicesMut (sound : Sound size r) (len : Nat) :
    Commutes dividing (writeSlicesMut len) r := by
  unfold Commutes
  rw [writeSlicesMut_spec sound, writeSlicesMut_spec (sound_dividing sound), dividing_used,
    dividing_writePos, dividing_ensureAllocated]
  split_ifs <;> rfl

theorem commutes_fillRegion (region : Buffer.Region) (offset : Nat) (src : List UInt8)
    (r : CircularBuffer) : Commutes dividing (fillRegion region offset src) r := by
  unfold Commutes fillRegion
  split_ifs
  · rfl
  · rfl
  · apply Commutes.attempt (f := dividing)
    simp only [dividing_data]
    cases unwrap r.data with
    | error reason => rfl
    | ok buffer =>
      simp only [ok_bind]
      cases copyTo buffer (region.start + offset) (region.start + offset + src.length) src <;> rfl

theorem commutes_step (sound : Sound size r) (positive : 0 < size) (op : RingOp) :
    Commutes dividing (Ring.step op) r := by
  cases op with
  | write data => exact (commutes_write sound data).map _
  | read output => exact (commutes_read sound output).map _
  | peek output => exact (commutes_peek sound output).map _
  | readPtrs =>
    have slices : (dividing r).readPtrs = r.readPtrs := rfl
    apply Commutes.attempt
    simp only [slices]
    cases r.readPtrs <;> rfl
  | writePtr len offset src =>
    apply (commutes_writePtr sound len).bind
    intro region t _
    exact (commutes_fillRegion region offset src t).bind fun _ _ _ => .pure _
  | writeSlicesMut len first second =>
    apply (commutes_writeSlicesMut sound len).bind
    rintro ⟨head, tail⟩ t _
    apply (commutes_fillRegion head 0 first t).bind
    intro _ u _
    exact (commutes_fillRegion tail 0 second u).bind fun _ _ _ => .pure _
  | incrWrite len => exact (commutes_incrWrite sound positive len).map _
  | incrRead len => exact (commutes_incrRead sound positive len).map _
  | clear => rfl
  | free => rfl

theorem paired_step (sound : Sound size r) (positive : 0 < size) (op : RingOp) :
    Paired True Eq Eq (fun t u => Sound size t ∧ u = dividing t) (Ring.step op r)
      (Ring.step op (dividing r)) :=
  (commutes_step sound positive op).paired fun _ stepped => sound_step sound stepped

end

/-- For every power of two that a ring may be made of, the ring masks, and over every script of
operations a ring of the same size that divides instead gives the same answers and has the same
bytes and cursors after each of them. -/
theorem masking_is_dividing {size : Nat} (pow2 : size.isPowerOfTwo) (small : size ≤ MAX_CBUF_SIZE) :
    ∃ start, CircularBuffer.new size = .ok start ∧ start.isPow2 = true ∧ ∀ ops,
      List.Forall₂ SameButFlag (trace Ring.step ops start) (trace Ring.step ops (dividing start)) := by
  have made : CircularBuffer.new size = .ok ⟨none, size, 0, 0, 0, decide size.isPowerOfTwo⟩ :=
    if_pos small
  refine ⟨_, made, decide_eq_true pow2, fun ops => ?_⟩
  have positive : 0 < size := by
    obtain ⟨k, rfl⟩ := pow2
    exact Nat.two_pow_pos k
  have stays : ∀ op s t, Sound size s ∧ t = dividing s →
      Paired True Eq Eq (fun s t => Sound size s ∧ t = dividing s) (Ring.step op s)
        (Ring.step op t) := by
    rintro op s t ⟨sound, rfl⟩
    exact paired_step sound positive op
  have lockstep := trace_paired stays ops ⟨sound_new made, rfl⟩
  apply lockstep.imp
  intro first second paired
  apply paired.mono id (fun _ _ => id) fun _ _ => id
  rintro s t ⟨-, rfl⟩
  exact ⟨rfl, rfl, rfl, rfl⟩

theorem masking_is_dividing_four :
    ∃ start, CircularBuffer.new 4 = .ok start ∧
      List.Forall₂ SameButFlag
        (trace Ring.step [.write [1, 2, 3], .incrRead 2, .write [4], .readPtrs, .write [5, 6],
          .read [0, 0]] start)
        (trace Ring.step [.write [1, 2, 3], .incrRead 2, .write [4], .readPtrs, .write [5, 6],
          .read [0, 0]] (dividing start)) := by
  have pow2 : Nat.isPowerOfTwo 4 := ⟨2, rfl⟩
  obtain ⟨start, made, -, lockstep⟩ := masking_is_dividing pow2 (by decide)
  exact ⟨start, made, lockstep _⟩

/-! The exponent, in a build without overflow checks. -/

/-- `a << b` there: only the low six bits of the amount count. -/
def maskedShl (a b : Nat) : Nat := a * 2 ^ (b % 64) % 2 ^ 64

/-- `new_pow2` there; the size is still checked. -/
def newPow2Unchecked (sizeLog2 : UInt32) : Except Fault CircularBuffer :=
  let size := maskedShl 1 sizeLog2.toNat
  if size ≤ MAX_CBUF_SIZE then .ok ⟨none, size, 0, 0, 0, true⟩ else .error .panic

/-- What is asked of `new_pow2`: it returns where the power is a size a ring may have, and then
the ring that `new` makes of that size, by its size and by every script. -/
structure MakesPower (sizeLog2 : UInt32) : Prop where
  returns_iff : (∃ r, newPow2Unchecked sizeLog2 = .ok r) ↔ 2 ^ sizeLog2.toNat ≤ MAX_CBUF_SIZE
  like_new : ∀ r, newPow2Unchecked sizeLog2 = .ok r → r.size = 2 ^ sizeLog2.toNat ∧
    ∃ other, CircularBuffer.new (2 ^ sizeLog2.toNat) = .ok other ∧
      ∀ ops, trace Ring.step ops r = trace Ring.step ops other

theorem maskedShl_one (b : Nat) : maskedShl 1 b = 2 ^ (b % 64) := by
  unfold maskedShl
  rw [Nat.one_mul]
  exact Nat.mod_eq_of_lt (Nat.pow_lt_pow_right (by decide) (Nat.mod_lt _ (by decide)))

theorem power_fits_iff (k : Nat) : 2 ^ k ≤ MAX_CBUF_SIZE ↔ k < 27 := by
  constructor
  · intro fits
    by_contra large
    have least : 2 ^ 27 ≤ 2 ^ k := Nat.pow_le_pow_right (by decide) (by omega)
    exact absurd (least.trans fits) (by decide)
  · intro small
    have most : 2 ^ k ≤ 2 ^ 26 := Nat.pow_le_pow_right (by decide) (by omega)
    exact most.trans (by decide)

theorem newPow2Unchecked_eq (sizeLog2 : UInt32) :
    newPow2Unchecked sizeLog2 = if sizeLog2.toNat % 64 < 27 then
      .ok ⟨none, 2 ^ (sizeLog2.toNat % 64), 0, 0, 0, true⟩ else .error .panic := by
  unfold newPow2Unchecked
  simp only [maskedShl_one, power_fits_iff]

theorem new_power {k : Nat} (fits : k < 27) :
    CircularBuffer.new (2 ^ k) = .ok ⟨none, 2 ^ k, 0, 0, 0, true⟩ := by
  rw [CircularBuffer.new, if_pos ((power_fits_iff k).mpr fits), decide_eq_true ⟨k, rfl⟩]

/-- For every exponent, `new_pow2` does what is asked exactly where the shift is by the exponent
itself, or what it leaves is still too large. -/
theorem new_pow2_exact_iff (sizeLog2 : UInt32) :
    MakesPower sizeLog2 ↔ sizeLog2.toNat < 64 ∨ 27 ≤ sizeLog2.toNat % 64 := by
  have rule := newPow2Unchecked_eq sizeLog2
  have whole := power_fits_iff sizeLog2.toNat
  constructor
  · intro makes
    by_contra masked
    have returned : ∃ r, newPow2Unchecked sizeLog2 = .ok r := by
      rw [rule, if_pos (by omega)]
      exact ⟨_, rfl⟩
    have small := whole.mp (makes.returns_iff.mp returned)
    omega
  · intro exact_shift
    by_cases low : sizeLog2.toNat % 64 < 27
    · have same : sizeLog2.toNat % 64 = sizeLog2.toNat := Nat.mod_eq_of_lt (by omega)
      rw [if_pos low, same] at rule
      rw [same] at low
      refine ⟨iff_of_true ⟨_, rule⟩ (whole.mpr low), ?_⟩
      intro r made
      cases rule.symm.trans made
      exact ⟨rfl, _, new_power low, fun ops => rfl⟩
    · rw [if_neg low] at rule
      have large : ¬ 2 ^ sizeLog2.toNat ≤ MAX_CBUF_SIZE := by
        rw [whole]
        have le := Nat.mod_le sizeLog2.toNat 64
        omega
      refine ⟨iff_of_false ?_ large, ?_⟩
      · rintro ⟨r, made⟩
        cases rule.symm.trans made
      · intro r made
        cases rule.symm.trans made

/-- An exponent of 64 makes a ring of one byte. -/
theorem exponent_wraps :
    ∃ r, newPow2Unchecked 64 = .ok r ∧ r.size = 1 ∧ ¬ MakesPower 64 := by
  refine ⟨_, rfl, rfl, fun makes => ?_⟩
  have asked := (makes.like_new _ rfl).1
  exact absurd asked (by decide)

end Secbuf.RingPow2
