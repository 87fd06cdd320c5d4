import Secbuf.BufferScript

/-! The unchecked writers under their documented precondition. It bounds the cursor by the
vector's capacity, while `as_slice` and `set_len` go by the vector's length; the bytes are
there for the caller exactly when they end within the latter. -/

namespace Secbuf.UncheckedPuts
open Calls Splice BigEndian Storage BufferCore BufferOps BufferScript

inductive UncheckedPut where
  | putU32 (val : UInt32)
  | putU64 (val : UInt64)
  | putBytes (bytes : List UInt8)
  deriving DecidableEq, Repr

inductive UncheckedGet where
  | getU32
  | getU64
  | getBytes (len : Nat)
  deriving DecidableEq, Repr

namespace UncheckedPut

def run : UncheckedPut → BufferM Unit
  | .putU32 val => putU32Unchecked val
  | .putU64 val => putU64Unchecked val
  | .putBytes bytes => putBytesUnchecked bytes

def encoding : UncheckedPut → List UInt8
  | .putU32 val => bigEndian 4 val.toNat
  | .putU64 val => bigEndian 8 val.toNat
  | .putBytes bytes => bytes

theorem run_eq (put : UncheckedPut) : put.run = putRaw put.encoding := by
  cases put <;> rfl

/-- "Caller MUST guarantee" of the writers. -/
def Safety (b : Buffer) (put : UncheckedPut) : Prop :=
  b.pos + put.encoding.length ≤ b.capacity

instance (b : Buffer) (put : UncheckedPut) : Decidable (put.Safety b) :=
  inferInstanceAs (Decidable (_ ≤ _))

/-- The stricter bound the checked writers test before they call this one. -/
def Within (b : Buffer) (put : UncheckedPut) : Prop :=
  b.pos + put.encoding.length ≤ b.data.len

end UncheckedPut

namespace UncheckedGet

def run : UncheckedGet → BufferM Reply
  | .getU32 => getU32Unchecked.map .u32
  | .getU64 => getU64Unchecked.map .u64
  | .getBytes len => (getBytesUnchecked len).map .bytes

def width : UncheckedGet → Nat
  | .getU32 => 4
  | .getU64 => 8
  | .getBytes len => len

/-- "Caller MUST guarantee" of the readers. -/
def Safety (b : Buffer) (get : UncheckedGet) : Prop := b.pos + get.width ≤ b.len

theorem run_state (b : Buffer) (get : UncheckedGet) :
    (get.run b).state? = (getRaw get.width b).state? := by
  cases get with
  | getU32 =>
    rw [run, state?_map, getU32Unchecked, width, bind_apply]
    cases getRaw 4 b <;> rfl
  | getU64 =>
    rw [run, state?_map, getU64Unchecked, width, bind_apply]
    cases getRaw 8 b <;> rfl
  | getBytes len =>
    rw [run, state?_map]
    rfl

theorem run_inside {b t : Buffer} (valid : Valid b) {get : UncheckedGet} (safe : get.Safety b)
    (left : (get.run b).state? = some t) : t = advance b get.width := by
  rw [run_state, getRaw_inside valid safe] at left
  exact (Option.some.inj left).symm

end UncheckedGet

inductive AnyOp where
  | safe (op : BufferOp)
  | put (put : UncheckedPut)
  | get (get : UncheckedGet)
  deriving DecidableEq

def Took (b : Buffer) : AnyOp → Buffer → Prop
  | .safe op, t => Stepped b op t
  | .put put, t => (put.run b).state? = some t
  | .get get, t => (get.run b).state? = some t

/-- Unchecked readers keep to their contract, unchecked writers to the stricter bound. -/
def Permitted (b : Buffer) : AnyOp → Prop
  | .safe _ => True
  | .put put => put.Within b
  | .get get => get.Safety b

def Reached (b : Buffer) : Prop :=
  ∃ start, Made start ∧ Reaches (Guarded Permitted Took) start b

theorem took_valid {b t : Buffer} (valid : Valid b) {op : AnyOp} (permitted : Permitted b op)
    (took : Took b op t) : Valid t := by
  cases op with
  | safe op => exact (step_lands valid op _ took).1
  | put put =>
    have within : b.pos + put.encoding.length ≤ b.data.len := permitted
    rw [Took, UncheckedPut.run_eq, putRaw_inside valid within] at took
    cases took
    exact stored_valid valid permitted
  | get get =>
    rw [UncheckedGet.run_inside valid permitted took]
    exact advance_valid valid permitted

theorem Reached.valid {b : Buffer} (reached : Reached b) : Valid b := by
  obtain ⟨start, made, run⟩ := reached
  exact run.keeps made.valid fun _ _ _ holds ⟨permitted, took⟩ => took_valid holds permitted took

/-- `as_slice()` stays in range and shows `src` from index `start` on. -/
def Shows (b : Buffer) (start : Nat) (src : List UInt8) : Prop :=
  ∃ view, b.asSlice = .ok view ∧ (view.drop start).take src.length = src

/-- A later change of length that does not shrink below `bound`. -/
def KeepsAbove (bound : Nat) (_ : Buffer) : BufferOp → Prop
  | .setLen len => bound ≤ len
  | .incrLen _ => True
  | _ => False

/-- What the caller of an unchecked writer is owed in the state it leaves. -/
structure Honoured (b : Buffer) (put : UncheckedPut) (t : Buffer) : Prop where
  bounds : Valid t
  shown : Shows t b.pos put.encoding
  kept : ∀ u, Reaches (Guarded (KeepsAbove (b.pos + put.encoding.length)) Stepped) t u →
    Shows u b.pos put.encoding

/-! Growing the length keeps what lies below it. -/

structure Covered (b : Buffer) (start : Nat) (src : List UInt8) : Prop where
  valid : Valid b
  below : start + src.length ≤ b.len
  bytes : (b.data.bytes.drop start).take src.length = src

theorem Covered.shows {b : Buffer} {start : Nat} {src : List UInt8}
    (covered : Covered b start src) : Shows b start src := by
  refine ⟨_, Buffer.asSlice_of_valid covered.valid, ?_⟩
  have below := covered.below
  rw [List.drop_take, List.take_take, min_eq_left (by omega)]
  exact covered.bytes

theorem setLen_cases {b t : Buffer} {n : Nat} (left : (Buffer.setLen n b).state? = some t) :
    t = b ∨ t.len = n ∧ t.data.bytes = b.data.bytes ++ ByteVec.zeros (n - b.data.len) := by
  unfold Buffer.setLen at left
  split_ifs at left with big
  · exact Or.inl (Option.some.inj left).symm
  · cases grown : b.growData n with
    | error reason => simp [grown] at left
    | ok data =>
      simp only [grown, state?_ok, Option.some.injEq] at left
      exact Or.inr (by subst left; exact ⟨rfl, Buffer.growData_bytes grown⟩)

theorem incrLen_cases {b t : Buffer} {n : Nat} (valid : Valid b)
    (left : (Buffer.incrLen n b).state? = some t) :
    t = b ∨ t.len = b.len + n ∧
      t.data.bytes = b.data.bytes ++ ByteVec.zeros (b.len + n - b.data.len) := by
  unfold Buffer.incrLen at left
  dsimp only at left
  split_ifs at left with big exceeds
  · exact Or.inl (Option.some.inj left).symm
  · exact Or.inl (Option.some.inj left).symm
  · have sum : usizeAdd b.len n = b.len + n :=
      valid.add_len (by simp only [BUF_MAX_INCR] at big; omega)
    rw [sum] at left
    cases grown : b.growData (b.len + n) with
    | error reason => simp [grown] at left
    | ok data =>
      simp only [grown, state?_ok, Option.some.injEq] at left
      exact Or.inr (by subst left; exact ⟨rfl, Buffer.growData_bytes grown⟩)

theorem Covered.append {b t : Buffer} {start : Nat} {src more : List UInt8}
    (covered : Covered b start src) (valid : Valid t) (below : start + src.length ≤ t.len)
    (grown : t.data.bytes = b.data.bytes ++ more) : Covered t start src := by
  refine ⟨valid, below, ?_⟩
  have inside : start + src.length ≤ b.data.bytes.length :=
    le_trans covered.below covered.valid.len_le
  rw [grown, List.drop_append_of_le_length (by omega),
    List.take_append_of_le_length (by simp only [List.length_drop]; omega)]
  exact covered.bytes

theorem Covered.after {b t : Buffer} {start : Nat} {src : List UInt8} {op : BufferOp}
    (covered : Covered b start src) (keeps : KeepsAbove (start + src.length) b op)
    (stepped : Stepped b op t) : Covered t start src := by
  have valid := (step_lands covered.valid op _ stepped).1
  have below := covered.below
  cases op with
  | setLen len =>
    rw [Stepped, BufferScript.step, state?_map] at stepped
    rcases setLen_cases stepped with rfl | ⟨length, grown⟩
    · exact covered
    · exact covered.append valid (by rw [length]; exact keeps) grown
  | incrLen incr =>
    rw [Stepped, BufferScript.step, state?_map] at stepped
    rcases incrLen_cases covered.valid stepped with rfl | ⟨length, grown⟩
    · exact covered
    · exact covered.append valid (by omega) grown
  | _ => cases keeps

theorem honoured_of_within {b : Buffer} (valid : Valid b) {put : UncheckedPut}
    (within : put.Within b) : Honoured b put (stored b put.encoding) := by
  have covered : Covered (stored b put.encoding) b.pos put.encoding := by
    refine ⟨stored_valid valid within, le_max_right _ _, ?_⟩
    simp only [stored, ByteVec.bytes_store within]
    exact read_splice _ _ _ within
  refine ⟨covered.valid, covered.shows, fun u run => ?_⟩
  have kept : Covered u b.pos put.encoding := by
    refine run.keeps (I := fun u => Covered u b.pos put.encoding) covered ?_
    intro before op after holds step
    exact holds.after step.1 step.2
  exact kept.shows

/-- Past the data the bytes land in the spare part, and the length passes the data's. -/
theorem put_beyond {b : Buffer} (valid : Valid b) {put : UncheckedPut} (safe : put.Safety b)
    (beyond : ¬ put.Within b) {t : Buffer} (done : put.run b = .ok () t) : ¬ Valid t := by
  intro kept
  have inside : b.pos + put.encoding.length ≤ b.data.capacity := safe
  have bound := b.data.capacity_lt
  rw [UncheckedPut.run_eq, putRaw, ByteVec.write, dif_pos inside] at done
  simp only [Outcome.ok.injEq, true_and] at done
  subst done
  have sum : usizeAdd b.pos put.encoding.length = b.pos + put.encoding.length := by
    simp only [ByteVec.capacity] at inside
    exact usizeAdd_of_lt (by omega)
  have length := kept.len_le
  simp only [sum, ByteVec.len, List.length_take] at length
  have outside : ¬ b.pos + put.encoding.length ≤ b.data.bytes.length := beyond
  have low := valid.len_le
  simp only [ByteVec.len] at low
  split_ifs at length <;> omega

/-- In every state reached with unchecked writes inside the data, an unchecked writer called
under its documented precondition honours it exactly when its bytes end within `data.len()`. -/
theorem unchecked_put_honoured_iff {b : Buffer} (reached : Reached b) {put : UncheckedPut}
    (safe : put.Safety b) :
    (∃ t, put.run b = .ok () t ∧ Honoured b put t) ↔
      b.pos + put.encoding.length ≤ b.data.len := by
  have valid := reached.valid
  constructor
  · rintro ⟨t, done, honoured⟩
    by_contra beyond
    exact put_beyond valid safe beyond done honoured.bounds
  · intro within
    refine ⟨_, ?_, honoured_of_within valid within⟩
    rw [UncheckedPut.run_eq]
    exact putRaw_inside valid within

def fourSpare : Buffer where
  data := ⟨[], [0, 0, 0, 0], [], by decide⟩
  pos := 0
  len := 0

def fourUsed : Buffer where
  data := ⟨[9, 9, 9, 9], [], [], by decide⟩
  pos := 0
  len := 0

theorem fourUsed_reached : Reached fourUsed :=
  ⟨_, .fromVec ⟨[9, 9, 9, 9], [], [], by decide⟩ rfl,
    .single ⟨.safe .reset, trivial, rfl⟩⟩

theorem unchecked_put_honoured_inside :
    ∃ t, putU32Unchecked 0x01020304 fourUsed = .ok () t ∧
      Honoured fourUsed (.putU32 0x01020304) t := by
  have safe : UncheckedPut.Safety fourUsed (.putU32 0x01020304) := by decide
  exact (unchecked_put_honoured_iff fourUsed_reached safe).mpr (by decide)

/-- `with_capacity(4)` and one unchecked `u32`: the precondition holds, `as_slice()` panics,
and a `set_len` shows zeros where the bytes were written. -/
theorem unchecked_put_beyond_data :
    Buffer.withCapacity 4 = .ok fourSpare ∧
      UncheckedPut.Safety fourSpare (.putU32 0x01020304) ∧
      ∃ t, putU32Unchecked 0x01020304 fourSpare = .ok () t ∧
        t.len = 4 ∧ t.data.len = 0 ∧ t.asSlice = .error .panic ∧
        (∃ u, Buffer.setLen 4 t = .ok () u ∧ u.asSlice = .ok [0, 0, 0, 0]) ∧
        ¬ Honoured fourSpare (.putU32 0x01020304) t := by
  refine ⟨rfl, by decide, _, rfl, rfl, rfl, rfl, ⟨_, rfl, rfl⟩, ?_⟩
  intro honoured
  exact absurd honoured.bounds.len_le (by decide)

end Secbuf.UncheckedPuts
