import Secbuf.BigEndian
import Secbuf.BufferCore

/-! Reading and writing at the cursor: the checked operations of `ops.rs` over the unchecked
ones of `unsafe_ops.rs`. An unchecked operation is a raw access to the block; the checks in
front of it are what keeps it inside. -/

namespace Secbuf.BufferOps
open Calls Splice BigEndian Storage BufferCore

def MAX_STRING_LEN : Nat := 400000

/-- Raw bytes through `data.as_mut_ptr().add(pos)`; the cursor and, past it, the length follow. -/
def putRaw (src : List UInt8) : BufferM Unit := fun b =>
  match b.data.write b.pos src with
  | .error reason => .fault reason
  | .ok data =>
    let pos := usizeAdd b.pos src.length
    .ok () { data := data, pos := pos, len := if pos > b.len then pos else b.len }

def getRaw (n : Nat) : BufferM (List UInt8) := fun b =>
  match b.data.read b.pos n with
  | .error reason => .fault reason
  | .ok bytes => .ok bytes { b with pos := usizeAdd b.pos n }

def putU32Unchecked (val : UInt32) : BufferM Unit := putRaw (bigEndian 4 val.toNat)

def getU32Unchecked : BufferM UInt32 := do
  let bytes ← getRaw 4
  pure (UInt32.ofNat (ofBigEndian bytes))

def putU64Unchecked (val : UInt64) : BufferM Unit := putRaw (bigEndian 8 val.toNat)

def getU64Unchecked : BufferM UInt64 := do
  let bytes ← getRaw 8
  pure (UInt64.ofNat (ofBigEndian bytes))

def putBytesUnchecked (bytes : List UInt8) : BufferM Unit := putRaw bytes

def getBytesUnchecked (len : Nat) : BufferM (List UInt8) := getRaw len

def checkedPut (n : Nat) (put : BufferM Unit) : BufferM Unit := fun b =>
  if usizeAdd b.pos n > b.data.len then .err .bufferOverflow b else put b

def checkedGet {α : Type} (n : Nat) (get : BufferM α) : BufferM α := fun b =>
  if usizeAdd b.pos n > b.len then .err .bufferOverflow b else get b

def putU32 (val : UInt32) : BufferM Unit := checkedPut 4 (putU32Unchecked val)
def getU32 : BufferM UInt32 := checkedGet 4 getU32Unchecked
def putU64 (val : UInt64) : BufferM Unit := checkedPut 8 (putU64Unchecked val)
def getU64 : BufferM UInt64 := checkedGet 8 getU64Unchecked

def putBytes (bytes : List UInt8) : BufferM Unit :=
  checkedPut bytes.length (putBytesUnchecked bytes)

def getBytes (len : Nat) : BufferM (List UInt8) := checkedGet len (getBytesUnchecked len)
def getBytesRef (len : Nat) : BufferM (List UInt8) := checkedGet len (getBytesUnchecked len)

def getPtr (len : Nat) : BufferM (List UInt8) := fun b =>
  if len > 1000000000 ∨ usizeAdd b.pos len > b.len then .err .bufferOverflow b
  else
    match b.data.slice b.pos (usizeAdd b.pos len) with
    | .error reason => .fault reason
    | .ok bytes => .ok bytes b

def getWritePtr (len : Nat) : BufferM Buffer.Region := fun b =>
  if len > 1000000000 ∨ usizeAdd b.pos len > b.data.len then .err .bufferOverflow b
  else
    match b.data.slice b.pos (usizeAdd b.pos len) with
    | .error reason => .fault reason
    | .ok _ => .ok ⟨b.pos, len⟩ b

def putByte (val : UInt8) : BufferM Unit := fun b =>
  if b.pos ≥ b.data.len then .err .bufferOverflow b
  else
    match b.data.set b.pos val with
    | .error reason => .fault reason
    | .ok data =>
      let pos := usizeAdd b.pos 1
      .ok () { data := data, pos := pos, len := if pos > b.len then pos else b.len }

def getByte : BufferM UInt8 := fun b =>
  if b.pos ≥ b.len then .err .bufferOverflow b
  else
    match b.data.get b.pos with
    | .error reason => .fault reason
    | .ok byte => .ok byte { b with pos := usizeAdd b.pos 1 }

def getBool : BufferM Bool := do
  let byte ← getByte
  pure (byte != 0)

def putString (s : List UInt8) : BufferM Unit := fun b =>
  if s.length > MAX_STRING_LEN then .err .invalidString b
  else (putU32 (UInt32.ofNat s.length) >>= fun _ => putBytes s) b

def getString : BufferM (List UInt8) := do
  let len ← getU32
  if len.toNat > MAX_STRING_LEN then Call.raise .invalidString
  else getBytes len.toNat

def eatString : BufferM Unit := do
  let len ← getU32
  if len.toNat > MAX_STRING_LEN then Call.raise .invalidString
  else Buffer.incrPos len.toNat

/-- Which of the `cfg` and runtime-detected bodies of `put_bytes_fast` runs. -/
inductive Target where
  | x86_64 (avx2 : Bool)
  | other
  deriving DecidableEq, Repr

/-- The copy loop: 32-byte chunks while at least 32 bytes remain, then the tail. -/
def avx2Copy (data : ByteVec) (dst : Nat) (src : List UInt8) : Except Fault ByteVec :=
  if 32 ≤ src.length then
    match data.write dst (src.take 32) with
    | .error reason => .error reason
    | .ok data => avx2Copy data (dst + 32) (src.drop 32)
  else data.write dst src
  termination_by src.length
  decreasing_by simp only [List.length_drop]; omega

def putBytesAvx2Impl (bytes : List UInt8) : BufferM Unit := fun b =>
  match avx2Copy b.data b.pos bytes with
  | .error reason => .fault reason
  | .ok data =>
    let pos := usizeAdd b.pos bytes.length
    .ok () { data := data, pos := pos, len := if pos > b.len then pos else b.len }

def putBytesFast (target : Target) (bytes : List UInt8) : BufferM Unit :=
  match target with
  | .other => putBytes bytes
  | .x86_64 avx2 =>
    if bytes.length < 64 then putBytes bytes
    else checkedPut bytes.length
      (if avx2 then putBytesAvx2Impl bytes else putBytesUnchecked bytes)

/-! Every writer stores its bytes in one place or reports an overflow and does nothing, and
every reader hands out the bytes in front of the cursor. -/

def stored (b : Buffer) (src : List UInt8) : Buffer where
  data := b.data.store b.pos src
  pos := b.pos + src.length
  len := max b.len (b.pos + src.length)

def ahead (b : Buffer) (n : Nat) : List UInt8 := (b.data.bytes.drop b.pos).take n

def advance (b : Buffer) (n : Nat) : Buffer := { b with pos := b.pos + n }

theorem stored_valid {b : Buffer} (valid : Valid b) {src : List UInt8}
    (fits : b.pos + src.length ≤ b.data.len) : Valid (stored b src) := by
  refine ⟨le_max_right _ _, ?_⟩
  simp only [stored, ByteVec.len_store fits]
  exact max_le valid.len_le fits

theorem advance_valid {b : Buffer} (valid : Valid b) {n : Nat} (inside : b.pos + n ≤ b.len) :
    Valid (advance b n) := ⟨inside, valid.len_le⟩

theorem ahead_length {b : Buffer} (valid : Valid b) {n : Nat} (inside : b.pos + n ≤ b.len) :
    (ahead b n).length = n := by
  have room : b.pos + n ≤ b.data.bytes.length := le_trans inside valid.len_le
  simp only [ahead, List.length_take, List.length_drop]
  omega

theorem written_state {b : Buffer} (valid : Valid b) (data : ByteVec) {n : Nat}
    (fits : b.pos + n ≤ b.data.len) :
    (⟨data, usizeAdd b.pos n, if usizeAdd b.pos n > b.len then usizeAdd b.pos n else b.len⟩ : Buffer) =
      ⟨data, b.pos + n, max b.len (b.pos + n)⟩ := by
  have sum : usizeAdd b.pos n = b.pos + n := by
    have bound := len_lt b.data
    exact valid.add_pos (by omega)
  rw [sum]
  congr 1
  split_ifs <;> omega

theorem putRaw_inside {b : Buffer} (valid : Valid b) {src : List UInt8}
    (fits : b.pos + src.length ≤ b.data.len) : putRaw src b = .ok () (stored b src) := by
  unfold putRaw
  rw [ByteVec.write_inside _ _ _ fits]
  exact congrArg (Outcome.ok ()) (written_state valid _ fits)

theorem getRaw_inside {b : Buffer} (valid : Valid b) {n : Nat} (inside : b.pos + n ≤ b.len) :
    getRaw n b = .ok (ahead b n) (advance b n) := by
  have sum : usizeAdd b.pos n = b.pos + n := by
    have bound := len_lt b.data
    have within := valid.len_le
    exact valid.add_pos (by omega)
  unfold getRaw
  rw [ByteVec.read_inside _ _ _ (le_trans inside valid.len_le)]
  simp only [sum, advance, ahead]

/-- One rule for every checked writer: it stores `src` or overflows. -/
theorem checkedPut_spec {b : Buffer} (valid : Valid b) {n : Nat} {src : List UInt8}
    {put : BufferM Unit} (width : src.length = n) (small : n ≤ 2 ^ 63)
    (raw : b.pos + src.length ≤ b.data.len → put b = .ok () (stored b src)) :
    checkedPut n put b =
      if b.pos + n ≤ b.data.len then .ok () (stored b src) else .err .bufferOverflow b := by
  unfold checkedPut
  rw [valid.add_pos small]
  by_cases fits : b.pos + n ≤ b.data.len
  · rw [if_neg (by omega), if_pos fits, raw (by omega)]
  · rw [if_pos (by omega), if_neg fits]

theorem putU32_spec {b : Buffer} (valid : Valid b) (val : UInt32) :
    putU32 val b =
      if b.pos + 4 ≤ b.data.len then .ok () (stored b (bigEndian 4 val.toNat))
      else .err .bufferOverflow b :=
  checkedPut_spec valid (length_bigEndian _ _) (by decide) (putRaw_inside valid)

theorem putU64_spec {b : Buffer} (valid : Valid b) (val : UInt64) :
    putU64 val b =
      if b.pos + 8 ≤ b.data.len then .ok () (stored b (bigEndian 8 val.toNat))
      else .err .bufferOverflow b :=
  checkedPut_spec valid (length_bigEndian _ _) (by decide) (putRaw_inside valid)

theorem putBytes_spec {b : Buffer} (valid : Valid b) {bytes : List UInt8}
    (small : bytes.length < 2 ^ 63) :
    putBytes bytes b =
      if b.pos + bytes.length ≤ b.data.len then .ok () (stored b bytes)
      else .err .bufferOverflow b :=
  checkedPut_spec valid rfl small.le (putRaw_inside valid)

theorem putByte_spec {b : Buffer} (valid : Valid b) (val : UInt8) :
    putByte val b =
      if b.pos + 1 ≤ b.data.len then .ok () (stored b [val]) else .err .bufferOverflow b := by
  unfold putByte
  by_cases inside : b.pos + 1 ≤ b.data.len
  · rw [if_neg (by omega), if_pos inside, ByteVec.set_inside _ _ _ inside]
    exact congrArg (Outcome.ok ()) (written_state valid _ inside)
  · rw [if_pos (by omega), if_neg inside]

/-- The chunked loop and the single copy leave the same storage. -/
theorem avx2Copy_inside (v : ByteVec) (dst : Nat) (src : List UInt8)
    (fits : dst + src.length ≤ v.len) : avx2Copy v dst src = .ok (v.store dst src) := by
  induction v, dst, src using avx2Copy.induct with
  | case1 v dst src long _ failed =>
    have chunk : dst + (src.take 32).length ≤ v.len := by
      simp only [List.length_take]
      omega
    rw [ByteVec.write_inside _ _ _ chunk] at failed
    cases failed
  | case2 v dst src long next copied ih =>
    have width : (src.take 32).length = 32 := by simp only [List.length_take]; omega
    have chunk : dst + (src.take 32).length ≤ v.len := by omega
    have tail : (src.take 32).length + (src.drop 32).length = src.length := by
      rw [← List.length_append, List.take_append_drop]
    rw [ByteVec.write_inside _ _ _ chunk] at copied
    cases copied
    have rest : dst + 32 + (src.drop 32).length ≤ (v.store dst (src.take 32)).len := by
      rw [ByteVec.len_store chunk]
      omega
    rw [avx2Copy, if_pos long, ByteVec.write_inside _ _ _ chunk]
    simp only
    rw [ih rest]
    congr 1
    ext1
    · have joined := splice_splice v.bytes dst (src.take 32) (src.drop 32)
        (by simp only [ByteVec.len] at fits; omega)
      rw [List.take_append_drop, width] at joined
      rw [ByteVec.bytes_store rest, ByteVec.bytes_store chunk, ByteVec.bytes_store fits, joined]
    · rfl
    · rfl
  | case3 v dst src short =>
    rw [avx2Copy, if_neg short, ByteVec.write_inside _ _ _ fits]

theorem putBytesAvx2Impl_inside {b : Buffer} (valid : Valid b) {bytes : List UInt8}
    (fits : b.pos + bytes.length ≤ b.data.len) :
    putBytesAvx2Impl bytes b = .ok () (stored b bytes) := by
  unfold putBytesAvx2Impl
  rw [avx2Copy_inside _ _ _ fits]
  exact congrArg (Outcome.ok ()) (written_state valid _ fits)

theorem putBytesFast_spec {b : Buffer} (valid : Valid b) (target : Target) {bytes : List UInt8}
    (small : bytes.length < 2 ^ 63) :
    putBytesFast target bytes b =
      if b.pos + bytes.length ≤ b.data.len then .ok () (stored b bytes)
      else .err .bufferOverflow b := by
  cases target with
  | other => exact putBytes_spec valid small
  | x86_64 avx2 =>
    unfold putBytesFast
    by_cases short : bytes.length < 64
    · simp only [if_pos short]
      exact putBytes_spec valid small
    · simp only [if_neg short]
      cases avx2 with
      | true => exact checkedPut_spec valid rfl small.le (putBytesAvx2Impl_inside valid)
      | false => exact checkedPut_spec valid rfl small.le (putRaw_inside valid)

theorem nowrap {b : Buffer} (valid : Valid b) {n : Nat} (small : n ≤ 2 ^ 63) :
    b.pos + n < 2 ^ 64 := by
  have bound := len_lt b.data
  have inside := valid.pos_le_data
  omega

theorem checkedGet_spec {α : Type} {b : Buffer} {n : Nat} (nowrap : b.pos + n < 2 ^ 64) (get : BufferM α) :
    checkedGet n get b = if b.pos + n ≤ b.len then get b else .err .bufferOverflow b := by
  unfold checkedGet
  rw [usizeAdd_of_lt nowrap]
  by_cases inside : b.pos + n ≤ b.len
  · rw [if_neg (by omega), if_pos inside]
  · rw [if_pos (by omega), if_neg inside]

theorem getBytes_spec {b : Buffer} (valid : Valid b) {n : Nat} (nowrap : b.pos + n < 2 ^ 64) :
    getBytes n b =
      if b.pos + n ≤ b.len then .ok (ahead b n) (advance b n) else .err .bufferOverflow b := by
  unfold getBytes
  rw [checkedGet_spec nowrap]
  split_ifs with inside
  · exact getRaw_inside valid inside
  · rfl

theorem getU32_spec {b : Buffer} (valid : Valid b) :
    getU32 b =
      if b.pos + 4 ≤ b.len then .ok (UInt32.ofNat (ofBigEndian (ahead b 4))) (advance b 4)
      else .err .bufferOverflow b := by
  unfold getU32 getU32Unchecked
  rw [checkedGet_spec (nowrap valid (by decide))]
  split_ifs with inside
  · rw [bind_of_ok (getRaw_inside valid inside), pure_apply]
  · rfl

theorem getU64_spec {b : Buffer} (valid : Valid b) :
    getU64 b =
      if b.pos + 8 ≤ b.len then .ok (UInt64.ofNat (ofBigEndian (ahead b 8))) (advance b 8)
      else .err .bufferOverflow b := by
  unfold getU64 getU64Unchecked
  rw [checkedGet_spec (nowrap valid (by decide))]
  split_ifs with inside
  · rw [bind_of_ok (getRaw_inside valid inside), pure_apply]
  · rfl

theorem getByte_spec {b : Buffer} (valid : Valid b) :
    getByte b =
      if inside : b.pos + 1 ≤ b.len then
        .ok (b.data.bytes.get ⟨b.pos, lt_of_lt_of_le inside valid.len_le⟩) (advance b 1)
      else .err .bufferOverflow b := by
  unfold getByte
  by_cases inside : b.pos + 1 ≤ b.len
  · rw [if_neg (by omega), dif_pos inside,
      ByteVec.get_inside _ _ (lt_of_lt_of_le inside valid.len_le)]
    rw [valid.add_pos (show 1 ≤ 2 ^ 63 by decide)]
    rfl
  · rw [if_pos (by omega), dif_neg inside]

theorem getPtr_spec {b : Buffer} (valid : Valid b) (n : Nat) :
    getPtr n b =
      if n ≤ 1000000000 ∧ b.pos + n ≤ b.len then .ok (ahead b n) b
      else .err .bufferOverflow b := by
  unfold getPtr
  by_cases small : n ≤ 1000000000
  · rw [valid.add_pos (show n ≤ 2 ^ 63 by omega)]
    by_cases inside : b.pos + n ≤ b.len
    · rw [if_neg (by omega), if_pos ⟨small, inside⟩,
        ByteVec.slice_inside _ _ _ (le_trans inside valid.len_le)]
      rfl
    · rw [if_pos (by omega), if_neg (by omega)]
  · rw [if_pos (by omega), if_neg (by omega)]

theorem getWritePtr_spec {b : Buffer} (valid : Valid b) (n : Nat) :
    getWritePtr n b =
      if n ≤ 1000000000 ∧ b.pos + n ≤ b.data.len then .ok ⟨b.pos, n⟩ b
      else .err .bufferOverflow b := by
  unfold getWritePtr
  by_cases small : n ≤ 1000000000
  · rw [valid.add_pos (show n ≤ 2 ^ 63 by omega)]
    by_cases inside : b.pos + n ≤ b.data.len
    · rw [if_neg (by omega), if_pos ⟨small, inside⟩, ByteVec.slice_inside _ _ _ inside]
    · rw [if_pos (by omega), if_neg (by omega)]
  · rw [if_pos (by omega), if_neg (by omega)]

/-! The length-prefixed strings, composed of the operations above. -/

theorem stored_stored {b : Buffer} {first second : List UInt8}
    (fits : b.pos + first.length + second.length ≤ b.data.len) :
    stored (stored b first) second = stored b (first ++ second) := by
  have early : b.pos + first.length ≤ b.data.len := by omega
  have late : b.pos + first.length + second.length ≤ (b.data.store b.pos first).len := by
    rw [ByteVec.len_store early]
    exact fits
  have whole : b.pos + (first ++ second).length ≤ b.data.len := by
    rw [List.length_append]
    omega
  have storage : (b.data.store b.pos first).store (b.pos + first.length) second =
      b.data.store b.pos (first ++ second) := by
    ext1
    · rw [ByteVec.bytes_store late, ByteVec.bytes_store early, ByteVec.bytes_store whole,
        splice_splice _ _ _ _ fits]
    · rfl
    · rfl
  simp only [stored, storage, List.length_append, Buffer.mk.injEq, true_and]
  omega

theorem putPrefix_spec {b : Buffer} (valid : Valid b) {s : List UInt8}
    (short : s.length ≤ MAX_STRING_LEN) :
    putU32 (UInt32.ofNat s.length) b =
      if b.pos + 4 ≤ b.data.len then .ok () (stored b (bigEndian 4 s.length))
      else .err .bufferOverflow b := by
  have narrow : s.length < 2 ^ 32 := by simp only [MAX_STRING_LEN] at short; omega
  have written := putU32_spec valid (UInt32.ofNat s.length)
  rw [UInt32.toNat_ofNat_of_lt' narrow] at written
  exact written

theorem putBody_spec {b : Buffer} (valid : Valid b) {s : List UInt8}
    (short : s.length ≤ MAX_STRING_LEN) (room : b.pos + 4 ≤ b.data.len) :
    putBytes s (stored b (bigEndian 4 s.length)) =
      if b.pos + 4 + s.length ≤ b.data.len then
        .ok () (stored (stored b (bigEndian 4 s.length)) s)
      else .err .bufferOverflow (stored b (bigEndian 4 s.length)) := by
  have fits : b.pos + (bigEndian 4 s.length).length ≤ b.data.len := by
    rw [length_bigEndian]
    exact room
  have narrow : s.length < 2 ^ 63 := by simp only [MAX_STRING_LEN] at short; omega
  have rule := putBytes_spec (stored_valid valid fits) narrow
  simp only [stored, ByteVec.len_store fits, length_bigEndian] at rule ⊢
  exact rule

/-- The body is checked after the prefix is in: a body that does not fit leaves the prefix. -/
theorem putString_spec {b : Buffer} (valid : Valid b) (s : List UInt8) :
    putString s b =
      if s.length > MAX_STRING_LEN then .err .invalidString b
      else if b.pos + 4 + s.length ≤ b.data.len then
        .ok () (stored b (bigEndian 4 s.length ++ s))
      else if b.pos + 4 ≤ b.data.len then
        .err .bufferOverflow (stored b (bigEndian 4 s.length))
      else .err .bufferOverflow b := by
  unfold putString
  by_cases long : s.length > MAX_STRING_LEN
  · rw [if_pos long, if_pos long]
  · have written := putPrefix_spec valid (Nat.le_of_not_lt long)
    rw [if_neg long, if_neg long]
    by_cases room : b.pos + 4 ≤ b.data.len
    · rw [if_pos room] at written
      rw [bind_of_ok written, putBody_spec valid (Nat.le_of_not_lt long) room, if_pos room]
      by_cases body : b.pos + 4 + s.length ≤ b.data.len
      · have whole : b.pos + (bigEndian 4 s.length).length + s.length ≤ b.data.len := by
          rw [length_bigEndian]
          exact body
        rw [if_pos body, if_pos body, stored_stored whole]
      · rw [if_neg body, if_neg body]
    · rw [if_neg room] at written
      rw [bind_of_err written, if_neg (by omega), if_neg room]

def announced (b : Buffer) : Nat := ofBigEndian (ahead b 4)

theorem announced_lt {b : Buffer} (valid : Valid b) (inside : b.pos + 4 ≤ b.len) :
    announced b < 2 ^ 32 := by
  have bound := ofBigEndian_lt (ahead b 4)
  rw [ahead_length valid inside] at bound
  exact bound

theorem getString_spec {b : Buffer} (valid : Valid b) :
    getString b =
      if b.pos + 4 ≤ b.len then
        if announced b > MAX_STRING_LEN then .err .invalidString (advance b 4)
        else if b.pos + 4 + announced b ≤ b.len then
          .ok (ahead (advance b 4) (announced b)) (advance b (4 + announced b))
        else .err .bufferOverflow (advance b 4)
      else .err .bufferOverflow b := by
  have prefixed := getU32_spec valid
  unfold getString
  by_cases inside : b.pos + 4 ≤ b.len
  · rw [if_pos inside] at prefixed
    have value : (UInt32.ofNat (ofBigEndian (ahead b 4))).toNat = announced b :=
      UInt32.toNat_ofNat_of_lt' (announced_lt valid inside)
    rw [bind_of_ok prefixed, if_pos inside, value]
    by_cases long : announced b > MAX_STRING_LEN
    · rw [if_pos long, if_pos long, raise_apply]
    · have moved := advance_valid valid inside
      rw [if_neg long, if_neg long, getBytes_spec moved (nowrap moved (by
        simp only [MAX_STRING_LEN] at long; omega))]
      simp only [advance, Nat.add_assoc]
  · rw [if_neg inside] at prefixed
    rw [bind_of_err prefixed, if_neg inside]

theorem incrPos_spec {b : Buffer} (valid : Valid b) {n : Nat} (small : n ≤ BUF_MAX_INCR) :
    Buffer.incrPos n b =
      if b.pos + n ≤ b.len then .ok () (advance b n) else .err .incrementTooLarge b := by
  unfold Buffer.incrPos
  rw [valid.add_pos (by simp only [BUF_MAX_INCR] at small; omega)]
  by_cases inside : b.pos + n ≤ b.len
  · rw [if_neg (by omega), if_pos inside]
    rfl
  · rw [if_pos (by omega), if_neg inside]

theorem eatString_spec {b : Buffer} (valid : Valid b) :
    eatString b =
      if b.pos + 4 ≤ b.len then
        if announced b > MAX_STRING_LEN then .err .invalidString (advance b 4)
        else if b.pos + 4 + announced b ≤ b.len then .ok () (advance b (4 + announced b))
        else .err .incrementTooLarge (advance b 4)
      else .err .bufferOverflow b := by
  have prefixed := getU32_spec valid
  unfold eatString
  by_cases inside : b.pos + 4 ≤ b.len
  · rw [if_pos inside] at prefixed
    have value : (UInt32.ofNat (ofBigEndian (ahead b 4))).toNat = announced b :=
      UInt32.toNat_ofNat_of_lt' (announced_lt valid inside)
    rw [bind_of_ok prefixed, if_pos inside, value]
    by_cases long : announced b > MAX_STRING_LEN
    · rw [if_pos long, if_pos long, raise_apply]
    · have small : announced b ≤ BUF_MAX_INCR := by
        simp only [MAX_STRING_LEN] at long
        simp only [BUF_MAX_INCR]
        omega
      rw [if_neg long, if_neg long, incrPos_spec (advance_valid valid inside) small]
      simp only [advance, Nat.add_assoc]
  · rw [if_neg inside] at prefixed
    rw [bind_of_err prefixed, if_neg inside]

end Secbuf.BufferOps
