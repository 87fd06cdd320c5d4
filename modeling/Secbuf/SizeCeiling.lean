import Secbuf.BufferScript

/-! The ceiling of a gigabyte. Every operation that sizes the vector asks for no more, so the data
never outgrows the larger of the ceiling and the vector it was made from; `from_vec` is the one way
to start above it. -/

namespace Secbuf.SizeCeiling
open Calls Storage BufferCore BufferOps BufferScript

/-- The longest vector a change asks for of its own. -/
def asks : Change → Nat
  | .resize n => n
  | _ => 0

section
variable {v w : ByteVec} {change : Change} {b : Buffer}

theorem effect_len_le {bound : Nat} (effect : Effect v change w) (asked : asks change ≤ bound)
    (under : v.len ≤ bound) : w.len ≤ bound := by
  cases effect with
  | keep => exact under
  | store start src fits => exact (ByteVec.len_store fits).trans_le under
  | resize _ n done => exact (ByteVec.resize_len done).trans_le asked
  | reserve _ n done =>
    have same : w.len = v.len := congrArg List.length (ByteVec.reserve_bytes done)
    exact same.trans_le under
  | shrink n =>
    have cut : (v.truncate n).shrinkToFit.len = min n v.len := by
      rw [ByteVec.len, ByteVec.bytes_shrinkToFit]
      exact ByteVec.len_truncate v n
    exact cut.trans_le ((min_le_right _ _).trans under)
  | wipe =>
    have same : v.zeroizeSlice.len = v.len := ByteVec.zeros_length v.len
    exact same.trans_le under
  | zeroize => exact Nat.zero_le bound
  | clone => exact under

theorem asks_growTo_le (b : Buffer) (n : Nat) : asks (growTo b n) ≤ n := by
  unfold growTo
  split_ifs
  · exact le_rfl
  · exact Nat.zero_le n

theorem asks_storeIf (room : Prop) [Decidable room] (start : Nat) (src : List UInt8) :
    asks (storeIf room start src) = 0 := by
  unfold storeIf
  split_ifs <;> rfl

/-- The six checks agree: whatever the state and the arguments, no operation asks for more than
the ceiling. -/
theorem op_asks_le (b : Buffer) (op : BufferOp) : asks (op.change b) ≤ BUF_MAX_SIZE := by
  have stores : ∀ (room : Prop) [Decidable room] (start : Nat) (src : List UInt8),
      asks (storeIf room start src) ≤ BUF_MAX_SIZE := by
    intro room _ start src
    exact (asks_storeIf room start src).trans_le (Nat.zero_le _)
  cases op with
  | setLen len =>
    simp only [BufferOp.change]
    split_ifs with exceeds
    · exact Nat.zero_le _
    · exact (asks_growTo_le b len).trans (not_lt.mp exceeds)
  | incrLen incr =>
    simp only [BufferOp.change]
    split_ifs with refused
    · exact Nat.zero_le _
    · exact (asks_growTo_le b _).trans (not_lt.mp (not_or.mp refused).2)
  | incrWritePos incr =>
    simp only [BufferOp.change]
    split_ifs with refused
    · exact Nat.zero_le _
    · exact (asks_growTo_le b _).trans (not_lt.mp (not_or.mp refused).2)
  | resize newSize =>
    simp only [BufferOp.change]
    split_ifs with exceeds
    · exact Nat.zero_le _
    · exact not_lt.mp exceeds
  | putString s =>
    simp only [BufferOp.change]
    split_ifs
    · exact Nat.zero_le _
    · exact Nat.zero_le _
    · exact stores _ _ _
  | asMutSlice offset src => exact stores _ _ _
  | putByte val => exact stores _ _ _
  | putU32 val => exact stores _ _ _
  | putU64 val => exact stores _ _ _
  | putBytes bytes => exact stores _ _ _
  | putBytesFast target bytes => exact stores _ _ _
  | getWritePtr len offset src => exact stores _ _ _
  | _ => exact Nat.zero_le _

structure Under (bound : Nat) (b : Buffer) : Prop where
  valid : Valid b
  data_le : b.data.len ≤ bound

theorem under_step {bound : Nat} (ceiling : BUF_MAX_SIZE ≤ bound) {op : BufferOp} {t : Buffer}
    (under : Under bound b) (taken : SteppedWrapping b op t) : Under bound t := by
  refine ⟨steppedWrapping_valid under.valid taken, ?_⟩
  rcases taken with stepped | ⟨n, -, passed, rfl⟩
  · have effect := (step_lands under.valid op t stepped).2
    exact effect_len_le effect ((op_asks_le b op).trans ceiling) under.data_le
  · exact under.data_le

theorem under_run {start : Buffer} (valid : Valid start) (run : Reaches SteppedWrapping start b) :
    Under (max BUF_MAX_SIZE start.data.len) b :=
  run.keeps ⟨valid, le_max_right _ _⟩ fun _ _ _ holds taken =>
    under_step (le_max_left _ _) holds taken

/-- No accepted increment takes the position or the length past what 32 bits hold. -/
def SumsFit (b : Buffer) : Prop :=
  ∀ incr, incr ≤ BUF_MAX_INCR → b.pos + incr < 2 ^ 32 ∧ b.len + incr < 2 ^ 32

theorem Under.sumsFit {bound : Nat} (under : Under bound b) (room : bound + BUF_MAX_INCR < 2 ^ 32) :
    SumsFit b := by
  have cursor := under.valid.pos_le
  have inside := under.valid.len_le
  have short := under.data_le
  intro incr accepted
  constructor <;> omega

theorem sumsFit_of_small {start : Buffer} (valid : Valid start) (small : start.data.len < 2 ^ 31)
    (run : Reaches SteppedWrapping start b) : SumsFit b := by
  apply (under_run valid run).sumsFit
  simp only [BUF_MAX_SIZE, BUF_MAX_INCR]
  omega

end

/-- What the cursor arithmetic is argued from, in every state reached from `start`. -/
def KeepsCeiling (start : Buffer) : Prop :=
  ∀ b, Reaches SteppedWrapping start b →
    b.len ≤ b.data.len ∧ b.data.len ≤ BUF_MAX_SIZE ∧ SumsFit b

theorem keepsCeiling_iff {start : Buffer} (valid : Valid start) :
    KeepsCeiling start ↔ start.data.len ≤ BUF_MAX_SIZE := by
  constructor
  · intro keeps
    exact (keeps start .refl).2.1
  · intro small b run
    have under := under_run valid run
    rw [max_eq_left small] at under
    exact ⟨under.valid.len_le, under.data_le, under.sumsFit (by decide)⟩

inductive Origin where
  | new (size : Nat)
  | withCapacity (capacity : Nat)
  | fromVec (data : ByteVec)

namespace Origin

def build : Origin → Except Fault Buffer
  | .new size => Buffer.new size
  | .withCapacity capacity => Buffer.withCapacity capacity
  | .fromVec data => .ok (Buffer.fromVec data)

def Small : Origin → Prop
  | .fromVec data => data.len ≤ BUF_MAX_SIZE
  | _ => True

theorem build_valid {origin : Origin} {start : Buffer} (built : origin.build = .ok start) :
    Valid start := by
  cases origin with
  | new size => exact (Made.new built).valid
  | withCapacity capacity => exact (Made.withCapacity built).valid
  | fromVec data =>
    cases built
    exact ⟨Nat.zero_le _, le_rfl⟩

theorem build_len_le {origin : Origin} {start : Buffer} (built : origin.build = .ok start)
    (small : origin.Small) : start.data.len ≤ BUF_MAX_SIZE := by
  cases origin with
  | new size =>
    obtain ⟨fits, bytes, -⟩ := Buffer.new_cases built
    rw [ByteVec.len, bytes, ByteVec.zeros_length]
    exact fits
  | withCapacity capacity =>
    obtain ⟨-, bytes, -⟩ := Buffer.withCapacity_cases built
    rw [ByteVec.len, bytes]
    exact Nat.zero_le _
  | fromVec data =>
    cases built
    exact small

end Origin

/-- Made by `new` or `with_capacity` a buffer keeps under the ceiling over every run, and made by
`from_vec` exactly where the vector was under it. -/
theorem ceiling_holds_iff (origin : Origin) :
    (∀ start, origin.build = .ok start → KeepsCeiling start) ↔ origin.Small := by
  constructor
  · intro keeps
    cases origin with
    | new size => trivial
    | withCapacity capacity => trivial
    | fromVec data => exact (keepsCeiling_iff ⟨Nat.zero_le _, le_rfl⟩).mp (keeps _ rfl)
  · intro small start built
    exact (keepsCeiling_iff (Origin.build_valid built)).mpr (Origin.build_len_le built small)

theorem zeroed_len {n : Nat} (fits : n < 2 ^ 63) :
    ∃ data, ByteVec.zeroed n = .ok data ∧ data.len = n :=
  ⟨_, ByteVec.zeroed_of_lt fits, ByteVec.zeros_length n⟩

/-- A vector one byte too long, taken over as it is. -/
theorem from_vec_unchecked :
    ∃ data, ByteVec.zeroed (BUF_MAX_SIZE + 1) = .ok data ∧
      ¬ KeepsCeiling (Buffer.fromVec data) := by
  obtain ⟨data, made, length⟩ := zeroed_len (n := BUF_MAX_SIZE + 1) (by decide)
  refine ⟨data, made, ?_⟩
  intro keeps
  have short : data.len ≤ BUF_MAX_SIZE := (keeps _ .refl).2.1
  exact absurd (length ▸ short) (Nat.not_succ_le_self _)

end Secbuf.SizeCeiling
