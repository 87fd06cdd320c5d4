import Secbuf.Storage

/-! The linear buffer: a vector with a read/write position and a length of valid data. The
operations of `core.rs`, on a 64-bit target with the release profile's wrapping arithmetic. -/

namespace Secbuf.BufferCore
open Calls Storage

inductive BufferError where
  | positionOutOfBounds
  | incrementTooLarge
  | sizeTooBig
  | bufferOverflow
  | invalidState (msg : String)
  | bufferFull
  | bufferEmpty
  | insufficientSpace
  | invalidString
  | invalidData (msg : String)
  | io (msg : String)
  deriving DecidableEq, Repr

def BUF_MAX_INCR : Nat := 1000000000
def BUF_MAX_SIZE : Nat := 1000000000

@[ext] structure Buffer where
  data : ByteVec
  pos : Nat
  len : Nat
  deriving DecidableEq

abbrev BufferM := Call Buffer BufferError

namespace Buffer

def new (size : Nat) : Except Fault Buffer :=
  if size ≤ BUF_MAX_SIZE then
    match ByteVec.zeroed size with
    | .ok data => .ok ⟨data, 0, 0⟩
    | .error reason => .error reason
  else .error .panic

def withCapacity (capacity : Nat) : Except Fault Buffer :=
  if capacity ≤ BUF_MAX_SIZE then
    match ByteVec.withCapacity capacity with
    | .ok data => .ok ⟨data, 0, 0⟩
    | .error reason => .error reason
  else .error .panic

def fromVec (data : ByteVec) : Buffer := ⟨data, 0, data.len⟩

def capacity (b : Buffer) : Nat := b.data.capacity

def isEmpty (b : Buffer) : Bool := b.len == 0

def remaining (b : Buffer) : Nat := b.len - b.pos

def hasRemaining (b : Buffer) (count : Nat) : Bool := decide (count ≤ b.remaining)

def setPos (pos : Nat) : BufferM Unit := fun b =>
  if pos > b.len then .err .positionOutOfBounds b
  else .ok () { b with pos := pos }

/-- "Grow Vec if needed": the vector is resized only upwards. -/
def growData (b : Buffer) (n : Nat) : Except Fault ByteVec :=
  if n > b.data.len then b.data.resize n else .ok b.data

def setLen (len : Nat) : BufferM Unit := fun b =>
  if len > BUF_MAX_SIZE then .err .sizeTooBig b
  else
    match b.growData len with
    | .error reason => .fault reason
    | .ok data => .ok () { data := data, len := len, pos := min b.pos len }

def incrPos (incr : Nat) : BufferM Unit := fun b =>
  if incr > BUF_MAX_INCR ∨ usizeAdd b.pos incr > b.len then .err .incrementTooLarge b
  else .ok () { b with pos := usizeAdd b.pos incr }

def decrPos (decr : Nat) : BufferM Unit := fun b =>
  if decr > b.pos then .err .positionOutOfBounds b
  else .ok () { b with pos := b.pos - decr }

def incrLen (incr : Nat) : BufferM Unit := fun b =>
  if incr > BUF_MAX_INCR then .err .incrementTooLarge b
  else
    let newLen := usizeAdd b.len incr
    if newLen > BUF_MAX_SIZE then .err .sizeTooBig b
    else
      match b.growData newLen with
      | .error reason => .fault reason
      | .ok data => .ok () { b with data := data, len := newLen }

def incrWritePos (incr : Nat) : BufferM Unit := fun b =>
  if incr > BUF_MAX_INCR then .err .incrementTooLarge b
  else
    let newPos := usizeAdd b.pos incr
    if newPos > BUF_MAX_SIZE then .err .incrementTooLarge b
    else
      match b.growData newPos with
      | .error reason => .fault reason
      | .ok data =>
        .ok () { data := data, pos := newPos, len := if newPos > b.len then newPos else b.len }

def reset (b : Buffer) : Buffer := { b with pos := 0, len := 0 }

/-- The slice is wiped, not the vector, so that `data.len()` survives. -/
def burn (b : Buffer) : Buffer := { data := b.data.zeroizeSlice, pos := 0, len := 0 }

/-- The derived `Zeroize`: every field, and a `Vec` is emptied by it. -/
def zeroize (b : Buffer) : Buffer := { data := b.data.zeroize, pos := 0, len := 0 }

def drop (b : Buffer) : ByteVec := b.data.dropZeroized

def burnFree (b : Buffer) : ByteVec := drop { b with data := b.data.zeroizeSlice }

def clone (b : Buffer) : Buffer := { b with data := b.data.clone }

def asSlice (b : Buffer) : Except Fault (List UInt8) := b.data.slice 0 b.len

def resize (newSize : Nat) : BufferM Unit := fun b =>
  if newSize > BUF_MAX_SIZE then .err .sizeTooBig b
  else
    match b.data.resize newSize with
    | .error reason => .fault reason
    | .ok data => .ok () { data := data, len := min b.len newSize, pos := min b.pos newSize }

def reserve (additional : Nat) : BufferM Unit := fun b =>
  match b.data.reserve additional with
  | .error reason => .fault reason
  | .ok data => .ok () { b with data := data }

def shrinkToFit (b : Buffer) : Buffer :=
  { b with data := (b.data.truncate b.len).shrinkToFit }

/-- The caller takes the allocation; the emptied buffer then drops nothing. -/
def intoVec (b : Buffer) : ByteVec := b.data.truncate b.len

/-- A mutable slice handed out over `data[start..start + length]`. -/
structure Region where
  start : Nat
  length : Nat
  deriving DecidableEq, Repr

def asMutSlice : BufferM Region := fun b =>
  match b.data.slice 0 b.len with
  | .error reason => .fault reason
  | .ok _ => .ok ⟨0, b.len⟩ b

def viewRegion (region : Region) : BufferM (List UInt8) := fun b =>
  match b.data.slice region.start (region.start + region.length) with
  | .error reason => .fault reason
  | .ok view => .ok view b

/-- What the holder of a mutable slice may store into it, from `offset` on. -/
def fillRegion (region : Region) (offset : Nat) (src : List UInt8) : BufferM Unit := fun b =>
  if offset + src.length ≤ region.length then
    match b.data.write (region.start + offset) src with
    | .error reason => .fault reason
    | .ok data => .ok () { b with data := data }
  else .fault .panic

end Buffer

/-- The bounds every reader and writer of a buffer relies on. -/
structure Valid (b : Buffer) : Prop where
  pos_le : b.pos ≤ b.len
  len_le : b.len ≤ b.data.len

theorem len_lt (v : ByteVec) : v.len < 2 ^ 63 :=
  lt_of_le_of_lt (Nat.le_add_right _ _) v.capacity_lt

theorem Valid.pos_le_data {b : Buffer} (valid : Valid b) : b.pos ≤ b.data.len :=
  le_trans valid.pos_le valid.len_le

/-- A sum of two quantities no allocation can exceed does not wrap. -/
theorem Valid.add_pos {b : Buffer} (valid : Valid b) {n : Nat} (small : n ≤ 2 ^ 63) :
    usizeAdd b.pos n = b.pos + n := by
  have bound := len_lt b.data
  have inside := valid.pos_le_data
  exact usizeAdd_of_lt (by omega)

theorem Valid.add_len {b : Buffer} (valid : Valid b) {n : Nat} (small : n ≤ 2 ^ 63) :
    usizeAdd b.len n = b.len + n := by
  have bound := len_lt b.data
  have inside := valid.len_le
  exact usizeAdd_of_lt (by omega)

namespace Buffer

theorem new_of_le {size : Nat} (small : size ≤ BUF_MAX_SIZE) :
    ∃ b, new size = .ok b ∧ b.data.bytes = ByteVec.zeros size ∧ b.data.spare = [] ∧
      b.data.released = [] ∧ b.pos = 0 ∧ b.len = 0 := by
  have fits : size < 2 ^ 63 := by simp only [BUF_MAX_SIZE] at small; omega
  refine ⟨⟨⟨ByteVec.zeros size, [], [], by simpa using fits⟩, 0, 0⟩, ?_, rfl, rfl, rfl, rfl, rfl⟩
  rw [new, if_pos small, ByteVec.zeroed_of_lt fits]

theorem new_too_large {size : Nat} (large : ¬ size ≤ BUF_MAX_SIZE) : new size = .error .panic :=
  if_neg large

theorem new_cases {size : Nat} {b : Buffer} (made : new size = .ok b) :
    size ≤ BUF_MAX_SIZE ∧ b.data.bytes = ByteVec.zeros size ∧ b.data.spare = [] ∧
      b.data.released = [] ∧ b.pos = 0 ∧ b.len = 0 := by
  by_cases small : size ≤ BUF_MAX_SIZE
  · obtain ⟨other, same, facts⟩ := new_of_le small
    rw [same] at made
    cases made
    exact ⟨small, facts⟩
  · simp [new, small] at made

theorem withCapacity_cases {capacity : Nat} {b : Buffer} (made : withCapacity capacity = .ok b) :
    capacity ≤ BUF_MAX_SIZE ∧ b.data.bytes = [] ∧ b.data.spare = ByteVec.zeros capacity ∧
      b.data.released = [] ∧ b.pos = 0 ∧ b.len = 0 := by
  by_cases small : capacity ≤ BUF_MAX_SIZE
  · have fits : capacity < 2 ^ 63 := by simp only [BUF_MAX_SIZE] at small; omega
    rw [withCapacity, if_pos small, ByteVec.withCapacity_of_lt fits] at made
    cases made
    exact ⟨small, rfl, rfl, rfl, rfl, rfl⟩
  · simp [withCapacity, small] at made

theorem growData_bytes {b : Buffer} {n : Nat} {data : ByteVec} (done : b.growData n = .ok data) :
    data.bytes = b.data.bytes ++ ByteVec.zeros (n - b.data.len) := by
  unfold growData at done
  split_ifs at done with longer
  · rw [ByteVec.resize_bytes done, List.take_of_length_le (by simp only [ByteVec.len] at longer; omega)]
  · rw [← Except.ok.inj done, Nat.sub_eq_zero_of_le (by omega)]
    simp [ByteVec.zeros]

theorem growData_len {b : Buffer} {n : Nat} {data : ByteVec} (done : b.growData n = .ok data) :
    data.len = max n b.data.len := by
  simp only [ByteVec.len, growData_bytes done, List.length_append, ByteVec.zeros_length]
  omega

theorem asSlice_of_valid {b : Buffer} (valid : Valid b) :
    b.asSlice = .ok (b.data.bytes.take b.len) := by
  have read := ByteVec.slice_inside b.data 0 b.len (by simpa using valid.len_le)
  simpa [asSlice] using read

end Buffer

structure Blank (b : Buffer) : Prop where
  pos : b.pos = 0
  len : b.len = 0
  bytes : ∀ value ∈ b.data.bytes, value = 0

theorem Blank.valid {b : Buffer} (blank : Blank b) : Valid b :=
  ⟨by rw [blank.pos]; exact Nat.zero_le _, by rw [blank.len]; exact Nat.zero_le _⟩

theorem blank_burn (b : Buffer) : Blank b.burn := ⟨rfl, rfl, fun _ => ByteVec.mem_zeros⟩

theorem blank_new {size : Nat} {b : Buffer} (made : Buffer.new size = .ok b) : Blank b := by
  obtain ⟨-, bytes, -, -, pos, len⟩ := Buffer.new_cases made
  exact ⟨pos, len, fun value member => ByteVec.mem_zeros (bytes ▸ member)⟩

end Secbuf.BufferCore
