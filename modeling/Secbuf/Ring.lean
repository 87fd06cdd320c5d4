import Secbuf.BufferCore

/-! The circular buffer. Every subtraction, sum and remainder of the source is checked here
and every slice is bounds-checked, so that a call that comes back has also come back in a
build with overflow checks off. -/

namespace Secbuf.Ring
open Calls Splice Storage BufferCore

def MAX_CBUF_SIZE : Nat := 100000000

def checkedAdd (a b : Nat) : Except Fault Nat :=
  if a + b < 2 ^ 64 then .ok (a + b) else .error .panic

theorem checkedAdd_eq {a b c : Nat} (done : checkedAdd a b = .ok c) : c = a + b := by
  unfold checkedAdd at done
  split_ifs at done
  exact (Except.ok.inj done).symm

def checkedSub (a b : Nat) : Except Fault Nat :=
  if b ≤ a then .ok (a - b) else .error .panic

def checkedShl (a b : Nat) : Except Fault Nat :=
  if b < 64 then .ok (a * 2 ^ b % 2 ^ 64) else .error .panic

def checkedRem (a b : Nat) : Except Fault Nat :=
  if b = 0 then .error .panic else .ok (a % b)

def sliceOf (buffer : List UInt8) (low high : Nat) : Except Fault (List UInt8) :=
  if low ≤ high ∧ high ≤ buffer.length then .ok ((buffer.drop low).take (high - low))
  else .error .panic

def copyTo (buffer : List UInt8) (low high : Nat) (src : List UInt8) :
    Except Fault (List UInt8) :=
  if low ≤ high ∧ high ≤ buffer.length ∧ src.length = high - low then .ok (splice buffer low src)
  else .error .panic

def unwrap {α : Type} : Option α → Except Fault α
  | some value => .ok value
  | none => .error .panic

@[ext] structure CircularBuffer where
  data : Option (List UInt8)
  size : Nat
  used : Nat
  readPos : Nat
  writePos : Nat
  isPow2 : Bool
  deriving DecidableEq, Repr

abbrev RingM := Call CircularBuffer BufferError

def wrap (pos delta size : Nat) (isPow2 : Bool) : Except Fault Nat := do
  let new ← checkedAdd pos delta
  if isPow2 then
    let mask ← checkedSub size 1
    .ok (new &&& mask)
  else checkedRem new size

namespace CircularBuffer

def new (size : Nat) : Except Fault CircularBuffer :=
  if size ≤ MAX_CBUF_SIZE then
    .ok ⟨none, size, 0, 0, 0, decide size.isPowerOfTwo⟩
  else .error .panic

def newPow2 (sizeLog2 : Nat) : Except Fault CircularBuffer := do
  let size ← checkedShl 1 sizeLog2
  if size ≤ MAX_CBUF_SIZE then .ok ⟨none, size, 0, 0, 0, true⟩
  else .error .panic

def available (r : CircularBuffer) : Except Fault Nat := checkedSub r.size r.used

def isEmpty (r : CircularBuffer) : Bool := r.used == 0

def isFull (r : CircularBuffer) : Bool := r.used == r.size

def ensureAllocated (r : CircularBuffer) : CircularBuffer :=
  match r.data with
  | some _ => r
  | none => { r with data := some (ByteVec.zeros r.size) }

def readPtrs (r : CircularBuffer) : Except Fault (List UInt8 × List UInt8) :=
  if r.used = 0 then .ok ([], [])
  else
    match r.data with
    | none => .ok ([], [])
    | some buffer => do
      let spaceToEnd ← checkedSub r.size r.readPos
      let len1 := min r.used spaceToEnd
      let p1 ← sliceOf buffer r.readPos (r.readPos + len1)
      if len1 < r.used then
        let p2 ← sliceOf buffer 0 (r.used - len1)
        .ok (p1, p2)
      else .ok (p1, [])

def withRoom {α : Type} (len : Nat) (call : RingM α) : RingM α := fun r =>
  match r.available with
  | .error reason => .fault reason
  | .ok free => if len > free then .err .insufficientSpace r else call r

def writePtr (len : Nat) : RingM Buffer.Region :=
  withRoom len fun r =>
    match checkedAdd r.writePos len with
    | .error reason => .fault reason
    | .ok last =>
      if last > r.size then
        .err (.invalidState
          "write would cross ring boundary — use write_slices_mut or write()") r
      else
        Call.attempt (fun r => do
          let buffer ← unwrap r.data
          let _ ← sliceOf buffer r.writePos (r.writePos + len)
          .ok (⟨r.writePos, len⟩, r)) r.ensureAllocated

/-- The two slices to fill; `split_at_mut` at the cursor keeps them apart. -/
def writeSlicesMut (len : Nat) : RingM (Buffer.Region × Buffer.Region) := fun r =>
  if len = 0 then .ok (⟨0, 0⟩, ⟨0, 0⟩) r
  else
    withRoom len (fun r =>
      Call.attempt (fun r => do
        let buffer ← unwrap r.data
        let spaceToEnd ← checkedSub r.size r.writePos
        if len ≤ spaceToEnd then
          let _ ← sliceOf buffer r.writePos (r.writePos + len)
          .ok ((⟨r.writePos, len⟩, ⟨0, 0⟩), r)
        else
          let head ← sliceOf buffer 0 r.writePos
          let tail ← sliceOf buffer r.writePos buffer.length
          let _ ← sliceOf tail 0 spaceToEnd
          let _ ← sliceOf head 0 (len - spaceToEnd)
          .ok ((⟨r.writePos, spaceToEnd⟩, ⟨0, len - spaceToEnd⟩), r)) r.ensureAllocated) r

/-- What the holder of a mutable slice may store into it, from `offset` on. -/
def fillRegion (region : Buffer.Region) (offset : Nat) (src : List UInt8) : RingM Unit := fun r =>
  if offset + src.length > region.length then .fault .panic
  else if src.length = 0 then .ok () r
  else
    Call.attempt (fun r => do
      let buffer ← unwrap r.data
      let start := region.start + offset
      let buffer ← copyTo buffer start (start + src.length) src
      .ok ((), { r with data := some buffer })) r

def incrWrite (len : Nat) : RingM Unit :=
  withRoom len (Call.attempt fun r => do
    let writePos ← wrap r.writePos len r.size r.isPow2
    let used ← checkedAdd r.used len
    .ok ((), { r with writePos := writePos, used := used }))

def incrRead (len : Nat) : RingM Unit := fun r =>
  if len > r.used then .err .bufferOverflow r
  else
    Call.attempt (fun r => do
      let readPos ← wrap r.readPos len r.size r.isPow2
      let used ← checkedSub r.used len
      .ok ((), { r with readPos := readPos, used := used })) r

def copySegments (buffer : List UInt8) (writePos spaceToEnd : Nat) (data : List UInt8) :
    Except Fault (List UInt8) :=
  if data.length ≤ spaceToEnd then copyTo buffer writePos (writePos + data.length) data
  else do
    let buffer ← copyTo buffer writePos buffer.length (data.take spaceToEnd)
    copyTo buffer 0 (data.length - spaceToEnd) (data.drop spaceToEnd)

def copyIn (data : List UInt8) (r : CircularBuffer) : Except Fault (Nat × CircularBuffer) := do
  let spaceToEnd ← checkedSub r.size r.writePos
  let buffer ← unwrap r.data
  let buffer ← copySegments buffer r.writePos spaceToEnd data
  let writePos ← wrap r.writePos data.length r.size r.isPow2
  let used ← checkedAdd r.used data.length
  .ok (data.length, { r with data := some buffer, writePos := writePos, used := used })

def write (data : List UInt8) : RingM Nat := fun r =>
  if data.length = 0 then .ok 0 r
  else withRoom data.length (fun r => Call.attempt (copyIn data) r.ensureAllocated) r

/-- The copy `read` and `peek` both spell out: how many bytes, and the output holding them. -/
def copyOut (r : CircularBuffer) (buffer output : List UInt8) :
    Except Fault (Nat × List UInt8) := do
  let toRead := min output.length r.used
  let spaceToEnd ← checkedSub r.size r.readPos
  if toRead ≤ spaceToEnd then
    let bytes ← sliceOf buffer r.readPos (r.readPos + toRead)
    let output ← copyTo output 0 toRead bytes
    .ok (toRead, output)
  else
    let bytes ← sliceOf buffer r.readPos buffer.length
    let output ← copyTo output 0 spaceToEnd bytes
    let bytes ← sliceOf buffer 0 (toRead - spaceToEnd)
    let output ← copyTo output spaceToEnd toRead bytes
    .ok (toRead, output)

def read (output : List UInt8) : RingM (Nat × List UInt8) := fun r =>
  match decide (r.used = 0), r.data with
  | true, _ | _, none => .ok (0, output) r
  | false, some buffer =>
    Call.attempt (fun r => do
      let (toRead, output) ← r.copyOut buffer output
      let readPos ← wrap r.readPos toRead r.size r.isPow2
      let used ← checkedSub r.used toRead
      .ok ((toRead, output), { r with readPos := readPos, used := used })) r

/-- The new cursor is computed here too, and thrown away. -/
def peek (output : List UInt8) : RingM (Nat × List UInt8) := fun r =>
  match decide (r.used = 0), r.data with
  | true, _ | _, none => .ok (0, output) r
  | false, some buffer =>
    Call.attempt (fun r => do
      let (toRead, output) ← r.copyOut buffer output
      let _ ← wrap r.readPos toRead r.size r.isPow2
      .ok ((toRead, output), r)) r

def clear (r : CircularBuffer) : CircularBuffer := { r with used := 0, readPos := 0, writePos := 0 }

/-- The storage is zeroed and given back, and the cursors start over. -/
def free (r : CircularBuffer) : CircularBuffer := clear { r with data := none }

end CircularBuffer

/-! The operations of a ring as one language. -/

inductive RingOp where
  | write (data : List UInt8)
  | read (output : List UInt8)
  | peek (output : List UInt8)
  | readPtrs
  /-- `write_ptr(len)`, through which `src` is then stored from `offset` on. -/
  | writePtr (len offset : Nat) (src : List UInt8)
  /-- `write_slices_mut(len)`, through which one slice each is then stored from its start. -/
  | writeSlicesMut (len : Nat) (first second : List UInt8)
  | incrWrite (len : Nat)
  | incrRead (len : Nat)
  | clear
  | free
  deriving DecidableEq, Repr

inductive RingReply where
  | unit
  | size (n : Nat)
  /-- A count and the caller's output slice as it was left. -/
  | copied (n : Nat) (output : List UInt8)
  | slices (first second : List UInt8)
  deriving DecidableEq, Repr

open CircularBuffer in
def step : RingOp → RingM RingReply
  | .write data => (write data).map .size
  | .read output => (read output).map fun (n, output) => .copied n output
  | .peek output => (peek output).map fun (n, output) => .copied n output
  | .readPtrs => Call.attempt fun r => do
    let (first, second) ← r.readPtrs
    .ok (.slices first second, r)
  | .writePtr len offset src => do
    let region ← writePtr len
    fillRegion region offset src
    pure .unit
  | .writeSlicesMut len first second => do
    let (head, tail) ← writeSlicesMut len
    fillRegion head 0 first
    fillRegion tail 0 second
    pure .unit
  | .incrWrite len => (incrWrite len).map fun _ => .unit
  | .incrRead len => (incrRead len).map fun _ => .unit
  | .clear => (Call.modify clear).map fun _ => .unit
  | .free => (Call.modify free).map fun _ => .unit

/-! What storing through a handed-out slice does, and the two operations that hand slices out. -/

section
open CircularBuffer
variable {r t : CircularBuffer}

theorem ensureAllocated_stored (r : CircularBuffer) : r.ensureAllocated.data.isSome := by
  unfold ensureAllocated
  split
  · rename_i held
    rw [held]
    rfl
  · rfl

theorem fillRegion_splices {region : Buffer.Region} {offset : Nat} {src : List UInt8}
    (done : (fillRegion region offset src r).state? = some t) :
    t = r ∨ ∃ buffer, r.data = some buffer ∧ offset + src.length ≤ region.length ∧
      region.start + offset + src.length ≤ buffer.length ∧
      t = { r with data := some (splice buffer (region.start + offset) src) } := by
  unfold fillRegion at done
  split_ifs at done with exceeds nothing
  · cases done
  · cases done
    exact Or.inl rfl
  · obtain ⟨_, done⟩ := attempt_state?.mp done
    obtain ⟨buffer, here, done⟩ := ok_of_bind done
    obtain ⟨after, copied, done⟩ := ok_of_bind done
    cases done
    have stored : r.data = some buffer := by
      cases data : r.data with
      | none =>
        rw [data] at here
        cases here
      | some held =>
        rw [data] at here
        cases here
        rfl
    unfold copyTo at copied
    split_ifs at copied with inside
    cases copied
    exact Or.inr ⟨buffer, stored, by omega, inside.2.1, rfl⟩

theorem fillRegion_cases {region : Buffer.Region} {offset : Nat} {src : List UInt8}
    (done : (fillRegion region offset src r).state? = some t) :
    t = r ∨ ∃ buffer after, r.data = some buffer ∧ after.length = buffer.length ∧
      t = { r with data := some after } := by
  rcases fillRegion_splices done with same | ⟨buffer, here, -, inside, rfl⟩
  · exact Or.inl same
  · exact Or.inr ⟨buffer, _, here, length_splice _ _ _ inside, rfl⟩

theorem stored_fillRegion (region : Buffer.Region) (offset : Nat) (src : List UInt8) :
    (fillRegion region offset src).Keeps (·.data.isSome) := by
  intro r t there done
  rcases fillRegion_cases done with rfl | ⟨buffer, after, -, -, rfl⟩
  · exact there
  · rfl

theorem keeps_fill {I : CircularBuffer → Prop}
    (fills : ∀ region offset src, (fillRegion region offset src).Keeps I)
    (region : Buffer.Region) (offset : Nat) (src : List UInt8) :
    (fillRegion region offset src >>= fun _ => pure RingReply.unit : RingM RingReply).Keeps I :=
  (fills region offset src).bind fun _ => .pure I RingReply.unit

theorem keeps_fill_both {I : CircularBuffer → Prop}
    (fills : ∀ region offset src, (fillRegion region offset src).Keeps I)
    (head tail : Buffer.Region) (first second : List UInt8) :
    (fillRegion head 0 first >>= fun _ => fillRegion tail 0 second >>= fun _ =>
      pure RingReply.unit : RingM RingReply).Keeps I :=
  (fills head 0 first).bind fun _ => keeps_fill fills tail 0 second

theorem keeps_writePtr {I : CircularBuffer → Prop} {len : Nat} (hands : (writePtr len).Keeps I)
    (fills : ∀ region offset src, (fillRegion region offset src).Keeps I)
    (offset : Nat) (src : List UInt8) : (step (.writePtr len offset src)).Keeps I :=
  hands.bind fun region => keeps_fill fills region offset src

theorem keeps_writeSlicesMut {I : CircularBuffer → Prop} {len : Nat}
    (hands : (writeSlicesMut len).Keeps I)
    (fills : ∀ region offset src, (fillRegion region offset src).Keeps I)
    (first second : List UInt8) : (step (.writeSlicesMut len first second)).Keeps I := by
  apply hands.bind
  rintro ⟨head, tail⟩
  exact keeps_fill_both fills head tail first second

end

end Secbuf.Ring
