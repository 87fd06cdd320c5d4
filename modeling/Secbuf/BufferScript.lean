import Secbuf.BufferOps

/-! The safe operations of a buffer as one language, and the states its programs reach. One
lemma says what a step does to the storage and that the cursor bounds survive it. -/

namespace Secbuf.BufferScript
open Calls Splice BigEndian Storage BufferCore BufferOps

inductive BufferOp where
  | setPos (pos : Nat)
  | setLen (len : Nat)
  | incrPos (incr : Nat)
  | decrPos (decr : Nat)
  | incrLen (incr : Nat)
  | incrWritePos (incr : Nat)
  | reset
  | burn
  | zeroize
  | resize (newSize : Nat)
  | reserve (additional : Nat)
  | shrinkToFit
  | clone
  | remaining
  | asSlice
  /-- `as_mut_slice()`, through which `src` is then stored from `offset` on. -/
  | asMutSlice (offset : Nat) (src : Slice)
  | putByte (val : UInt8)
  | putU32 (val : UInt32)
  | putU64 (val : UInt64)
  | putBytes (bytes : Slice)
  | putBytesFast (target : Target) (bytes : Slice)
  | putString (s : Slice)
  | getByte
  | getBool
  | getU32
  | getU64
  | getBytes (len : Nat)
  | getBytesRef (len : Nat)
  | getPtr (len : Nat)
  | getString
  | eatString
  /-- `get_write_ptr(len)`, through which `src` is then stored from `offset` on. -/
  | getWritePtr (len offset : Nat) (src : Slice)
  deriving DecidableEq

inductive Reply where
  | unit
  | size (n : Nat)
  | bool (value : Bool)
  | byte (value : UInt8)
  | u32 (value : UInt32)
  | u64 (value : UInt64)
  | bytes (value : List UInt8)
  deriving DecidableEq, Repr

def Reply.shown : Reply → List UInt8
  | .unit | .size _ | .bool _ => []
  | .byte value => [value]
  | .u32 value => bigEndian 4 value.toNat
  | .u64 value => bigEndian 8 value.toNat
  | .bytes value => value

/-- The holder of a mutable slice looks at it, then stores into it. -/
def editRegion (handed : BufferM Buffer.Region) (offset : Nat) (src : List UInt8) :
    BufferM (List UInt8) := do
  let region ← handed
  let view ← Buffer.viewRegion region
  Buffer.fillRegion region offset src
  pure view

def asSliceCall : BufferM (List UInt8) := fun b =>
  match b.asSlice with
  | .error reason => .fault reason
  | .ok view => .ok view b

def step : BufferOp → BufferM Reply
  | .setPos pos => (Buffer.setPos pos).map fun _ => .unit
  | .setLen len => (Buffer.setLen len).map fun _ => .unit
  | .incrPos incr => (Buffer.incrPos incr).map fun _ => .unit
  | .decrPos decr => (Buffer.decrPos decr).map fun _ => .unit
  | .incrLen incr => (Buffer.incrLen incr).map fun _ => .unit
  | .incrWritePos incr => (Buffer.incrWritePos incr).map fun _ => .unit
  | .reset => (Call.modify Buffer.reset).map fun _ => .unit
  | .burn => (Call.modify Buffer.burn).map fun _ => .unit
  | .zeroize => (Call.modify Buffer.zeroize).map fun _ => .unit
  | .resize newSize => (Buffer.resize newSize).map fun _ => .unit
  | .reserve additional => (Buffer.reserve additional).map fun _ => .unit
  | .shrinkToFit => (Call.modify Buffer.shrinkToFit).map fun _ => .unit
  | .clone => (Call.modify Buffer.clone).map fun _ => .unit
  | .remaining => fun b => .ok (.size b.remaining) b
  | .asSlice => asSliceCall.map .bytes
  | .asMutSlice offset src => (editRegion Buffer.asMutSlice offset src.val).map .bytes
  | .putByte val => (putByte val).map fun _ => .unit
  | .putU32 val => (putU32 val).map fun _ => .unit
  | .putU64 val => (putU64 val).map fun _ => .unit
  | .putBytes bytes => (putBytes bytes.val).map fun _ => .unit
  | .putBytesFast target bytes => (putBytesFast target bytes.val).map fun _ => .unit
  | .putString s => (putString s.val).map fun _ => .unit
  | .getByte => getByte.map .byte
  | .getBool => getBool.map .bool
  | .getU32 => getU32.map .u32
  | .getU64 => getU64.map .u64
  | .getBytes len => (getBytes len).map .bytes
  | .getBytesRef len => (getBytesRef len).map .bytes
  | .getPtr len => (getPtr len).map .bytes
  | .getString => getString.map .bytes
  | .eatString => eatString.map fun _ => .unit
  | .getWritePtr len offset src => (editRegion (getWritePtr len) offset src.val).map .bytes

def growTo (b : Buffer) (n : Nat) : Change := if n > b.data.len then .resize n else .keep

def BufferOp.change (b : Buffer) : BufferOp → Change
  | .setLen len => if len > BUF_MAX_SIZE then .keep else growTo b len
  | .incrLen incr =>
    if incr > BUF_MAX_INCR ∨ b.len + incr > BUF_MAX_SIZE then .keep else growTo b (b.len + incr)
  | .incrWritePos incr =>
    if incr > BUF_MAX_INCR ∨ b.pos + incr > BUF_MAX_SIZE then .keep else growTo b (b.pos + incr)
  | .resize newSize => if newSize > BUF_MAX_SIZE then .keep else .resize newSize
  | .reserve additional => .reserve additional
  | .shrinkToFit => .shrink b.len
  | .burn => .wipe
  | .zeroize => .zeroize
  | .clone => .clone
  | .asMutSlice offset src => storeIf (offset + src.val.length ≤ b.len) offset src.val
  | .putByte val => storeIf (b.pos + 1 ≤ b.data.len) b.pos [val]
  | .putU32 val => storeIf (b.pos + 4 ≤ b.data.len) b.pos (bigEndian 4 val.toNat)
  | .putU64 val => storeIf (b.pos + 8 ≤ b.data.len) b.pos (bigEndian 8 val.toNat)
  | .putBytes bytes | .putBytesFast _ bytes =>
    storeIf (b.pos + bytes.val.length ≤ b.data.len) b.pos bytes.val
  | .putString s =>
    if s.val.length > MAX_STRING_LEN then .keep
    else if b.pos + 4 + s.val.length ≤ b.data.len then
      .store b.pos (bigEndian 4 s.val.length ++ s.val)
    else storeIf (b.pos + 4 ≤ b.data.len) b.pos (bigEndian 4 s.val.length)
  | .getWritePtr len offset src =>
    storeIf (len ≤ 1000000000 ∧ b.pos + len ≤ b.data.len ∧ offset + src.val.length ≤ len)
      (b.pos + offset) src.val
  | _ => .keep

/-- What an operation stores into the data, index by index, when it is run on `b`. -/
def BufferOp.stores (b : Buffer) (op : BufferOp) : List (Nat × UInt8) := (op.change b).writes

/-- The outcome leaves a valid buffer behind, whose storage is the old one after `change`. -/
def Lands {α : Type} (b : Buffer) (change : Change) (outcome : Outcome Buffer BufferError α) :
    Prop :=
  ∀ t, outcome.state? = some t → Valid t ∧ Effect b.data change t.data

section
variable {α : Type} {b : Buffer}

theorem lands_map {β : Type} {change : Change} {call : BufferM α} {read : α → β}
    (lands : Lands b change (call b)) : Lands b change (call.map read b) := by
  intro t left
  rw [state?_map] at left
  exact lands t left

theorem lands_ok {change : Change} {value : α} {t : Buffer} (valid : Valid t)
    (effect : Effect b.data change t.data) :
    Lands b change (.ok value t : Outcome Buffer BufferError α) := by
  intro u left
  cases left
  exact ⟨valid, effect⟩

theorem lands_err {change : Change} {error : BufferError} {t : Buffer} (valid : Valid t)
    (effect : Effect b.data change t.data) :
    Lands b change (.err error t : Outcome Buffer BufferError α) := by
  intro u left
  cases left
  exact ⟨valid, effect⟩

theorem lands_fault {change : Change} {reason : Fault} :
    Lands b change (.fault reason : Outcome Buffer BufferError α) := by
  intro u left
  cases left

theorem lands_refused (valid : Valid b) {error : BufferError} :
    Lands b .keep (.err error b : Outcome Buffer BufferError α) :=
  lands_err valid (.keep _)

theorem lands_modify {change : Change} (edit : Buffer → Buffer) (valid : Valid (edit b))
    (effect : Effect b.data change (edit b).data) :
    Lands b change (((Call.modify edit : BufferM Unit).map fun _ => Reply.unit) b) :=
  lands_map (lands_ok valid effect)

theorem lands_moved {value : α} {pos len : Nat} (cursor : pos ≤ len) (inside : len ≤ b.data.len) :
    Lands b .keep (.ok value { b with pos := pos, len := len } : Outcome Buffer BufferError α) :=
  lands_ok ⟨cursor, inside⟩ (.keep _)

end

variable {b : Buffer}

theorem effect_stored {src : List UInt8} (fits : b.pos + src.length ≤ b.data.len) :
    Effect b.data (.store b.pos src) (stored b src).data := .store _ _ _ fits

theorem lands_put (valid : Valid b) {n : Nat} {src : List UInt8} {put : BufferM Unit}
    (width : src.length = n)
    (rule : put b = if b.pos + n ≤ b.data.len then .ok () (stored b src)
      else .err .bufferOverflow b) :
    Lands b (storeIf (b.pos + n ≤ b.data.len) b.pos src) (put b) := by
  rw [rule, storeIf]
  by_cases fits : b.pos + n ≤ b.data.len
  · rw [if_pos fits, if_pos fits]
    exact lands_ok (stored_valid valid (by omega)) (effect_stored (by omega))
  · rw [if_neg fits, if_neg fits]
    exact lands_refused valid

theorem lands_putString (valid : Valid b) (s : Slice) :
    Lands b (BufferOp.change b (.putString s)) (putString s.val b) := by
  rw [putString_spec valid]
  simp only [BufferOp.change, storeIf]
  split_ifs with long body room
  · exact lands_refused valid
  · have fits : b.pos + (bigEndian 4 s.val.length ++ s.val).length ≤ b.data.len := by
      rw [List.length_append, length_bigEndian]
      omega
    exact lands_ok (stored_valid valid fits) (effect_stored fits)
  · have fits : b.pos + (bigEndian 4 s.val.length).length ≤ b.data.len := by
      rw [length_bigEndian]
      exact room
    exact lands_err (stored_valid valid fits) (effect_stored fits)
  · exact lands_refused valid

theorem growData_effect {n : Nat} {data : ByteVec} (done : b.growData n = .ok data) :
    Effect b.data (growTo b n) data := by
  unfold Buffer.growData at done
  unfold growTo
  split_ifs at done ⊢
  · exact .resize _ _ n done
  · exact Except.ok.inj done ▸ .keep _

theorem lands_setLen (valid : Valid b) (n : Nat) :
    Lands b (BufferOp.change b (.setLen n)) (Buffer.setLen n b) := by
  unfold Buffer.setLen
  simp only [BufferOp.change]
  split_ifs with big
  · exact lands_refused valid
  · cases grown : b.growData n with
    | error reason => exact lands_fault
    | ok data =>
      have room := Buffer.growData_len grown
      exact lands_ok ⟨min_le_right _ _, by simp only [room]; exact le_max_left _ _⟩
        (growData_effect grown)

theorem lands_incrPos (valid : Valid b) (n : Nat) : Lands b .keep (Buffer.incrPos n b) := by
  unfold Buffer.incrPos
  split_ifs with refused
  · exact lands_refused valid
  · exact lands_moved (by omega) valid.len_le

theorem lands_incrLen (valid : Valid b) (n : Nat) :
    Lands b (BufferOp.change b (.incrLen n)) (Buffer.incrLen n b) := by
  unfold Buffer.incrLen
  simp only [BufferOp.change]
  by_cases big : n > BUF_MAX_INCR
  · rw [if_pos big, if_pos (Or.inl big)]
    exact lands_refused valid
  · have sum : usizeAdd b.len n = b.len + n :=
      valid.add_len (by simp only [BUF_MAX_INCR] at big; omega)
    rw [if_neg big, sum]
    by_cases exceeds : b.len + n > BUF_MAX_SIZE
    · rw [if_pos exceeds, if_pos (Or.inr exceeds)]
      exact lands_refused valid
    · rw [if_neg exceeds, if_neg (by omega)]
      cases grown : b.growData (b.len + n) with
      | error reason => exact lands_fault
      | ok data =>
        have room := Buffer.growData_len grown
        have cursor := valid.pos_le
        exact lands_ok ⟨by simp only; omega, by simp only [room]; exact le_max_left _ _⟩
          (growData_effect grown)

theorem lands_incrWritePos (valid : Valid b) (n : Nat) :
    Lands b (BufferOp.change b (.incrWritePos n)) (Buffer.incrWritePos n b) := by
  unfold Buffer.incrWritePos
  simp only [BufferOp.change]
  by_cases big : n > BUF_MAX_INCR
  · rw [if_pos big, if_pos (Or.inl big)]
    exact lands_refused valid
  · have sum : usizeAdd b.pos n = b.pos + n :=
      valid.add_pos (by simp only [BUF_MAX_INCR] at big; omega)
    rw [if_neg big, sum]
    by_cases exceeds : b.pos + n > BUF_MAX_SIZE
    · rw [if_pos exceeds, if_pos (Or.inr exceeds)]
      exact lands_refused valid
    · rw [if_neg exceeds, if_neg (by omega)]
      cases grown : b.growData (b.pos + n) with
      | error reason => exact lands_fault
      | ok data =>
        have room := Buffer.growData_len grown
        have inside := valid.len_le
        refine lands_ok ⟨?_, ?_⟩ (growData_effect grown)
        · simp only
          split_ifs <;> omega
        · simp only [room]
          split_ifs <;> omega

theorem lands_resize (valid : Valid b) (n : Nat) :
    Lands b (BufferOp.change b (.resize n)) (Buffer.resize n b) := by
  unfold Buffer.resize
  simp only [BufferOp.change]
  split_ifs with big
  · exact lands_refused valid
  · cases grown : b.data.resize n with
    | error reason => exact lands_fault
    | ok data =>
      have room := ByteVec.resize_len grown
      have cursor := valid.pos_le
      exact lands_ok ⟨by simp only; omega, by simp only [room]; omega⟩ (.resize _ _ n grown)

theorem lands_reserve (valid : Valid b) (n : Nat) :
    Lands b (.reserve n) (Buffer.reserve n b) := by
  unfold Buffer.reserve
  cases grown : b.data.reserve n with
  | error reason => exact lands_fault
  | ok data =>
    have room : data.len = b.data.len := congrArg List.length (ByteVec.reserve_bytes grown)
    exact lands_ok ⟨valid.pos_le, room ▸ valid.len_le⟩ (.reserve _ _ n grown)

theorem shrinkToFit_valid (valid : Valid b) : Valid b.shrinkToFit := by
  refine ⟨valid.pos_le, ?_⟩
  have kept : b.shrinkToFit.data.len = min b.len b.data.len := by
    rw [Buffer.shrinkToFit, ByteVec.len, ByteVec.bytes_shrinkToFit]
    exact ByteVec.len_truncate _ _
  have inside := valid.len_le
  simp only [kept]
  exact le_min le_rfl inside

theorem fillRegion_inside {region : Buffer.Region}
    (bound : region.start + region.length ≤ b.data.len) (offset : Nat) (src : List UInt8) :
    Buffer.fillRegion region offset src b =
      if offset + src.length ≤ region.length then
        .ok () { b with data := b.data.store (region.start + offset) src }
      else .fault .panic := by
  unfold Buffer.fillRegion
  by_cases room : offset + src.length ≤ region.length
  · rw [if_pos room, if_pos room, ByteVec.write_inside _ _ _ (by omega)]
  · rw [if_neg room, if_neg room]

theorem editRegion_inside {handed : BufferM Buffer.Region} {region : Buffer.Region}
    (given : handed b = .ok region b) (bound : region.start + region.length ≤ b.data.len)
    (offset : Nat) (src : List UInt8) :
    editRegion handed offset src b =
      if offset + src.length ≤ region.length then
        .ok ((b.data.bytes.drop region.start).take region.length)
          { b with data := b.data.store (region.start + offset) src }
      else .fault .panic := by
  have seen : Buffer.viewRegion region b =
      .ok ((b.data.bytes.drop region.start).take region.length) b := by
    unfold Buffer.viewRegion
    rw [ByteVec.slice_inside _ _ _ bound]
  have stored := fillRegion_inside bound offset src
  unfold editRegion
  rw [bind_of_ok given, bind_of_ok seen, bind_apply, stored]
  by_cases room : offset + src.length ≤ region.length
  · rw [if_pos room, if_pos room]
    rfl
  · rw [if_neg room, if_neg room]

theorem editRegion_refused {handed : BufferM Buffer.Region} {error : BufferError}
    (refused : handed b = .err error b) (offset : Nat) (src : List UInt8) :
    editRegion handed offset src b = .err error b := by
  unfold editRegion
  rw [bind_of_err refused]

theorem lands_edit {handed : BufferM Buffer.Region} {region : Buffer.Region} (valid : Valid b)
    (given : handed b = .ok region b) (bound : region.start + region.length ≤ b.data.len)
    (offset : Nat) (src : List UInt8) :
    Lands b (storeIf (offset + src.length ≤ region.length) (region.start + offset) src)
      (editRegion handed offset src b) := by
  rw [editRegion_inside given bound, storeIf]
  by_cases room : offset + src.length ≤ region.length
  · rw [if_pos room, if_pos room]
    have fits : region.start + offset + src.length ≤ b.data.len := by omega
    refine lands_ok ⟨valid.pos_le, ?_⟩ (.store _ _ _ fits)
    rw [ByteVec.len_store fits]
    exact valid.len_le
  · rw [if_neg room, if_neg room]
    exact lands_fault

theorem asMutSlice_spec (valid : Valid b) : Buffer.asMutSlice b = .ok ⟨0, b.len⟩ b := by
  have view := ByteVec.slice_inside b.data 0 b.len (by simpa using valid.len_le)
  rw [Nat.zero_add] at view
  unfold Buffer.asMutSlice
  rw [view]

theorem lands_getWritePtr (valid : Valid b) (len offset : Nat) (src : Slice) :
    Lands b (BufferOp.change b (.getWritePtr len offset src))
      (editRegion (getWritePtr len) offset src.val b) := by
  have rule := getWritePtr_spec valid len
  by_cases given : len ≤ 1000000000 ∧ b.pos + len ≤ b.data.len
  · rw [if_pos given] at rule
    have lands := lands_edit valid rule given.2 offset src.val
    simpa only [BufferOp.change, storeIf, given.1, given.2, true_and] using lands
  · rw [if_neg given] at rule
    rw [editRegion_refused rule]
    have nothing : BufferOp.change b (.getWritePtr len offset src) = .keep := by
      simp only [BufferOp.change, storeIf]
      rw [if_neg (by omega)]
    rw [nothing]
    exact lands_refused valid

theorem getBytes_ok {t : Buffer} (valid : Valid b) {n : Nat} {bytes : List UInt8}
    (done : getBytes n b = .ok bytes t) :
    b.pos + n ≤ b.len ∧ bytes = ahead b n ∧ t = advance b n := by
  by_cases small : b.pos + n < 2 ^ 64
  · rw [getBytes_spec valid small] at done
    split_ifs at done with inside
    cases done
    exact ⟨inside, rfl, rfl⟩
  · -- the check may pass on a wrapped sum, but the block is never that long
    have outside : ¬ b.pos + n ≤ b.data.capacity := by
      have bound := b.data.capacity_lt
      simp only [ByteVec.capacity]
      omega
    unfold getBytes checkedGet getBytesUnchecked getRaw ByteVec.read at done
    rw [if_neg outside] at done
    split_ifs at done

theorem getBytes_err {t : Buffer} {n : Nat} {error : BufferError}
    (failed : getBytes n b = .err error t) : t = b := by
  unfold getBytes checkedGet getBytesUnchecked getRaw at failed
  split_ifs at failed
  · cases failed
    rfl
  · cases read : b.data.read b.pos n <;> simp [read] at failed

theorem lands_getBytes (valid : Valid b) (n : Nat) : Lands b .keep (getBytes n b) := by
  cases run : getBytes n b with
  | ok bytes t =>
    obtain ⟨inside, _, rfl⟩ := getBytes_ok valid run
    exact lands_ok (advance_valid valid inside) (.keep _)
  | err error t =>
    obtain rfl := getBytes_err run
    exact lands_refused valid
  | fault reason => exact lands_fault

theorem lands_advance {α : Type} (valid : Valid b) {n : Nat} {value : α}
    (inside : b.pos + n ≤ b.len) :
    Lands b .keep (.ok value (advance b n) : Outcome Buffer BufferError α) :=
  lands_ok (advance_valid valid inside) (.keep _)

theorem lands_getU32 (valid : Valid b) : Lands b .keep (getU32 b) := by
  rw [getU32_spec valid]
  split_ifs with inside
  · exact lands_advance valid inside
  · exact lands_refused valid

theorem lands_getU64 (valid : Valid b) : Lands b .keep (getU64 b) := by
  rw [getU64_spec valid]
  split_ifs with inside
  · exact lands_advance valid inside
  · exact lands_refused valid

theorem lands_getByte (valid : Valid b) : Lands b .keep (getByte b) := by
  rw [getByte_spec valid]
  split_ifs with inside
  · exact lands_advance valid inside
  · exact lands_refused valid

theorem getBool_eq (b : Buffer) : getBool b = (getByte.map fun byte => byte != 0) b := by
  unfold getBool Call.map
  rw [bind_apply]
  cases getByte b <;> rfl

theorem lands_getPtr (valid : Valid b) (n : Nat) : Lands b .keep (getPtr n b) := by
  rw [getPtr_spec valid]
  split_ifs with inside
  · exact lands_ok valid (.keep _)
  · exact lands_refused valid

theorem lands_getString (valid : Valid b) : Lands b .keep (getString b) := by
  rw [getString_spec valid]
  split_ifs with inside long body
  · exact lands_err (advance_valid valid inside) (.keep _)
  · exact lands_advance valid (by omega)
  · exact lands_err (advance_valid valid inside) (.keep _)
  · exact lands_refused valid

theorem lands_eatString (valid : Valid b) : Lands b .keep (eatString b) := by
  rw [eatString_spec valid]
  split_ifs with inside long body
  · exact lands_err (advance_valid valid inside) (.keep _)
  · exact lands_advance valid (by omega)
  · exact lands_err (advance_valid valid inside) (.keep _)
  · exact lands_refused valid

theorem asSliceCall_spec (valid : Valid b) :
    asSliceCall b = .ok (b.data.bytes.take b.len) b := by
  unfold asSliceCall
  rw [Buffer.asSlice_of_valid valid]

/-- One step of a valid buffer: the bounds survive and the storage changes by one effect. -/
theorem step_lands (valid : Valid b) (op : BufferOp) : Lands b (op.change b) (step op b) := by
  cases op with
  | setPos pos =>
    refine lands_map ?_
    unfold Buffer.setPos
    split_ifs with exceeds
    · exact lands_refused valid
    · exact lands_moved (by omega) valid.len_le
  | setLen len => exact lands_map (lands_setLen valid len)
  | incrPos incr => exact lands_map (lands_incrPos valid incr)
  | decrPos decr =>
    refine lands_map ?_
    unfold Buffer.decrPos
    split_ifs with exceeds
    · exact lands_refused valid
    · have cursor := valid.pos_le
      exact lands_moved (by omega) valid.len_le
  | incrLen incr => exact lands_map (lands_incrLen valid incr)
  | incrWritePos incr => exact lands_map (lands_incrWritePos valid incr)
  | reset => exact lands_modify Buffer.reset ⟨le_rfl, Nat.zero_le _⟩ (.keep _)
  | burn => exact lands_modify Buffer.burn ⟨le_rfl, Nat.zero_le _⟩ (.wipe _)
  | zeroize => exact lands_modify Buffer.zeroize ⟨le_rfl, Nat.zero_le _⟩ (.zeroize _)
  | resize newSize => exact lands_map (lands_resize valid newSize)
  | reserve additional => exact lands_map (lands_reserve valid additional)
  | shrinkToFit => exact lands_modify Buffer.shrinkToFit (shrinkToFit_valid valid) (.shrink _ _)
  | clone => exact lands_modify Buffer.clone ⟨valid.pos_le, valid.len_le⟩ (.clone _)
  | remaining => exact lands_ok valid (.keep _)
  | asSlice =>
    refine lands_map ?_
    rw [asSliceCall_spec valid]
    exact lands_ok valid (.keep _)
  | asMutSlice offset src =>
    have lands := lands_edit valid (asMutSlice_spec valid) (by simpa using valid.len_le)
      offset src.val
    simp only [Nat.zero_add] at lands
    exact lands_map lands
  | putByte val => exact lands_map (lands_put valid rfl (putByte_spec valid val))
  | putU32 val => exact lands_map (lands_put valid (length_bigEndian _ _) (putU32_spec valid val))
  | putU64 val => exact lands_map (lands_put valid (length_bigEndian _ _) (putU64_spec valid val))
  | putBytes bytes => exact lands_map (lands_put valid rfl (putBytes_spec valid bytes.2))
  | putBytesFast target bytes =>
    exact lands_map (lands_put valid rfl (putBytesFast_spec valid target bytes.2))
  | putString s => exact lands_map (lands_putString valid s)
  | getByte => exact lands_map (lands_getByte valid)
  | getBool =>
    refine lands_map ?_
    rw [getBool_eq]
    exact lands_map (lands_getByte valid)
  | getU32 => exact lands_map (lands_getU32 valid)
  | getU64 => exact lands_map (lands_getU64 valid)
  | getBytes len => exact lands_map (lands_getBytes valid len)
  | getBytesRef len => exact lands_map (lands_getBytes valid len)
  | getPtr len => exact lands_map (lands_getPtr valid len)
  | getString => exact lands_map (lands_getString valid)
  | eatString => exact lands_map (lands_eatString valid)
  | getWritePtr len offset src => exact lands_map (lands_getWritePtr valid len offset src)

/-! The states a buffer's holder can reach. -/

def Stepped (b : Buffer) (op : BufferOp) (t : Buffer) : Prop := (step op b).state? = some t

/-- How a buffer comes into being: a vector handed to `from_vec` has its own past, which is
no part of this buffer's. -/
inductive Made : Buffer → Prop
  | new {size : Nat} {b : Buffer} (made : Buffer.new size = .ok b) : Made b
  | withCapacity {capacity : Nat} {b : Buffer} (made : Buffer.withCapacity capacity = .ok b) :
      Made b
  | fromVec (data : ByteVec) (fresh : data.released = []) : Made (Buffer.fromVec data)

def Reachable (b : Buffer) : Prop := ∃ start, Made start ∧ Reaches Stepped start b

theorem Made.valid {b : Buffer} (made : Made b) : Valid b := by
  cases made with
  | new made =>
    obtain ⟨-, -, -, -, cursor, length⟩ := Buffer.new_cases made
    exact ⟨by omega, by omega⟩
  | withCapacity made =>
    obtain ⟨-, -, -, -, cursor, length⟩ := Buffer.withCapacity_cases made
    exact ⟨by omega, by omega⟩
  | fromVec data => exact ⟨Nat.zero_le _, le_rfl⟩

theorem reaches_valid {s t : Buffer} (run : Reaches Stepped s t) (valid : Valid s) : Valid t :=
  run.keeps valid fun _ op _ holds taken => (step_lands holds op _ taken).1

theorem Reachable.valid {b : Buffer} (reach : Reachable b) : Valid b := by
  obtain ⟨start, made, run⟩ := reach
  exact reaches_valid run made.valid

/-! The bounds themselves. -/

/-- One safe operation in a build without overflow checks. There a reader whose check has passed
on a wrapped sum hands out nothing sensible, and moves the cursor to that sum. -/
def SteppedWrapping (b : Buffer) (op : BufferOp) (t : Buffer) : Prop :=
  Stepped b op t ∨ ∃ n, (op = .getBytes n ∨ op = .getBytesRef n) ∧ usizeAdd b.pos n ≤ b.len ∧
    t = { b with pos := usizeAdd b.pos n }

theorem steppedWrapping_valid {op : BufferOp} {t : Buffer} (valid : Valid b)
    (taken : SteppedWrapping b op t) : Valid t := by
  rcases taken with stepped | ⟨n, -, passed, rfl⟩
  · exact (step_lands valid op t stepped).1
  · exact ⟨passed, valid.len_le⟩

def ReachableWrapping (b : Buffer) : Prop := ∃ start, Made start ∧ Reaches SteppedWrapping start b

theorem ReachableWrapping.valid {b : Buffer} (reach : ReachableWrapping b) : Valid b := by
  obtain ⟨start, made, run⟩ := reach
  exact run.keeps made.valid fun _ _ _ holds taken => steppedWrapping_valid holds taken

theorem ReachableWrapping.of_exec {start : Buffer} {ops : List BufferOp} (made : Made start)
    (script : exec (fun b op => (step op b).state?) start ops = some b) : ReachableWrapping b :=
  ⟨start, made, (Reaches.of_exec script).of_steps fun _ _ _ taken => Or.inl taken⟩

/-- After any sequence of safe operations on a buffer, however it was made, the cursor is inside
the length and the length inside the data; both views of it are within the data and
`remaining()` does not saturate. -/
theorem cursor_stays_inside {start : Buffer} (made : Made start)
    (run : Reaches SteppedWrapping start b) :
    b.pos ≤ b.len ∧ b.len ≤ b.data.len ∧
      b.asSlice = .ok (b.data.bytes.take b.len) ∧
      Buffer.asMutSlice b = .ok ⟨0, b.len⟩ b ∧
      b.pos + b.remaining = b.len := by
  have valid := ReachableWrapping.valid ⟨start, made, run⟩
  refine ⟨valid.pos_le, valid.len_le, Buffer.asSlice_of_valid valid, asMutSlice_spec valid, ?_⟩
  exact Nat.add_sub_cancel' valid.pos_le

theorem cursor_stays_inside_resized :
    ∃ start b, Buffer.new 8 = .ok start ∧
      exec (fun b op => (step op b).state?) start
        [.setLen 8, .setPos 5, .resize 2, .incrWritePos 9, .shrinkToFit, .getBytes 1] = some b ∧
      b.pos ≤ b.len ∧ b.len ≤ b.data.len := by
  obtain ⟨start, b, made, script⟩ : ∃ start b, Buffer.new 8 = .ok start ∧
      exec (fun b op => (step op b).state?) start
        [.setLen 8, .setPos 5, .resize 2, .incrWritePos 9, .shrinkToFit, .getBytes 1] = some b :=
    ⟨_, _, rfl, rfl⟩
  have run : Reaches SteppedWrapping start b :=
    (Reaches.of_exec script).of_steps fun _ _ _ taken => Or.inl taken
  obtain ⟨cursor, inside, -⟩ := cursor_stays_inside (.new made) run
  exact ⟨start, b, made, script, cursor, inside⟩

end Secbuf.BufferScript
