import Secbuf.BufferScript

/-! Field lists at the cursor. The writers lay down the concatenation of the encodings, and
a reader of a given kind answers exactly where the bytes in front of the cursor begin with an
encoding of that kind. -/

namespace Secbuf.FieldCodec
open Calls Splice BigEndian Storage BufferCore BufferOps BufferScript

inductive Field where
  | u8 (val : UInt8)
  | u32 (val : UInt32)
  | u64 (val : UInt64)
  | raw (bytes : List UInt8)
  | string (bytes : List UInt8)
  deriving DecidableEq, Repr

inductive Kind where
  | u8
  | u32
  | u64
  | raw (len : Nat)
  | string
  deriving DecidableEq, Repr

namespace Field

def kind : Field → Kind
  | .u8 _ => .u8
  | .u32 _ => .u32
  | .u64 _ => .u64
  | .raw bytes => .raw bytes.length
  | .string _ => .string

def encode : Field → List UInt8
  | .u8 val => [val]
  | .u32 val => bigEndian 4 val.toNat
  | .u64 val => bigEndian 8 val.toNat
  | .raw bytes => bytes
  | .string bytes => bigEndian 4 bytes.length ++ bytes

def Allowed : Field → Prop
  | .string bytes => bytes.length ≤ MAX_STRING_LEN
  | _ => True

end Field

def encodeAll (fields : List Field) : List UInt8 := fields.flatMap Field.encode

/-- Raw bytes may go through either of the two writers. -/
inductive RawWriter where
  | putBytes
  | putBytesFast (target : Target)
  deriving DecidableEq, Repr

def put (writer : RawWriter) : Field → BufferM Unit
  | .u8 val => putByte val
  | .u32 val => putU32 val
  | .u64 val => putU64 val
  | .raw bytes =>
    match writer with
    | .putBytes => BufferOps.putBytes bytes
    | .putBytesFast target => BufferOps.putBytesFast target bytes
  | .string bytes => putString bytes

def get : Kind → BufferM Field
  | .u8 => getByte.map .u8
  | .u32 => getU32.map .u32
  | .u64 => getU64.map .u64
  | .raw len => (getBytes len).map .raw
  | .string => getString.map .string

def putAll : List (RawWriter × Field) → BufferM Unit
  | [] => pure ()
  | (writer, field) :: rest => put writer field >>= fun _ => putAll rest

def getAll : List Kind → BufferM (List Field)
  | [] => pure []
  | kind :: rest => get kind >>= fun field => getAll rest >>= fun fields => pure (field :: fields)

/-! What a reader sees: `as_slice()[pos..]`. -/

def window (b : Buffer) : List UInt8 := (b.data.bytes.take b.len).drop b.pos

theorem window_advance (b : Buffer) (n : Nat) : window (advance b n) = (window b).drop n := by
  simp only [window, advance, List.drop_drop]

theorem advance_advance (b : Buffer) (n m : Nat) : advance (advance b n) m = advance b (n + m) := by
  simp only [advance, Nat.add_assoc]

theorem encodeAll_cons_length (field : Field) (rest : List Field) :
    (encodeAll (field :: rest)).length = field.encode.length + (encodeAll rest).length := by
  simp only [encodeAll, List.flatMap_cons, List.length_append]

theorem window_length {b : Buffer} (valid : Valid b) : (window b).length = b.len - b.pos := by
  have inside : b.len ≤ b.data.bytes.length := valid.len_le
  simp only [window, List.length_drop, List.length_take]
  omega

theorem take_window {b : Buffer} {n : Nat} (inside : b.pos + n ≤ b.len) :
    (window b).take n = ahead b n := by
  rw [window, ahead, List.drop_take, List.take_take, min_eq_left (by omega)]

theorem prefix_window {b : Buffer} (valid : Valid b) {src : List UInt8} :
    src <+: window b ↔ b.pos + src.length ≤ b.len ∧ ahead b src.length = src := by
  have cursor := valid.pos_le
  constructor
  · intro begins
    have inside := begins.length_le
    rw [window_length valid] at inside
    have room : b.pos + src.length ≤ b.len := by omega
    exact ⟨room, (take_window room).symm.trans (List.prefix_iff_eq_take.mp begins).symm⟩
  · rintro ⟨inside, same⟩
    rw [List.prefix_iff_eq_take, take_window inside, same]

theorem append_prefix {α : Type} {first second whole : List α} :
    first ++ second <+: whole ↔ first <+: whole ∧ second <+: whole.drop first.length := by
  constructor
  · rintro ⟨rest, rfl⟩
    refine ⟨⟨second ++ rest, by rw [List.append_assoc]⟩, rest, ?_⟩
    rw [List.append_assoc, List.drop_left]
  · rintro ⟨⟨rest, rfl⟩, more⟩
    rw [List.drop_left] at more
    exact (List.prefix_append_right_inj first).mpr more

/-! One reader against the grammar. -/

/-- The bytes in front of the cursor begin with an encoding of `field`, and reading it moves
the cursor over exactly those bytes. -/
def Reads (b : Buffer) (field : Field) (t : Buffer) : Prop :=
  field.Allowed ∧ field.encode <+: window b ∧ t = advance b field.encode.length

theorem u32_bytes {bytes : List UInt8} (width : bytes.length = 4) (val : UInt32) :
    UInt32.ofNat (ofBigEndian bytes) = val ↔ bytes = bigEndian 4 val.toNat := by
  have bound := ofBigEndian_lt bytes
  rw [width] at bound
  constructor
  · rintro rfl
    rw [UInt32.toNat_ofNat_of_lt' bound, ← width, bigEndian_ofBigEndian]
  · rintro rfl
    have small : val.toNat < 256 ^ 4 := val.toNat_lt
    rw [ofBigEndian_bigEndian, Nat.mod_eq_of_lt small, UInt32.ofNat_toNat]

theorem u64_bytes {bytes : List UInt8} (width : bytes.length = 8) (val : UInt64) :
    UInt64.ofNat (ofBigEndian bytes) = val ↔ bytes = bigEndian 8 val.toNat := by
  have bound := ofBigEndian_lt bytes
  rw [width] at bound
  constructor
  · rintro rfl
    rw [UInt64.toNat_ofNat_of_lt' bound, ← width, bigEndian_ofBigEndian]
  · rintro rfl
    have small : val.toNat < 256 ^ 8 := val.toNat_lt
    rw [ofBigEndian_bigEndian, Nat.mod_eq_of_lt small, UInt64.ofNat_toNat]

theorem getByte_ok {b t : Buffer} (valid : Valid b) (val : UInt8) :
    getByte b = .ok val t ↔ [val] <+: window b ∧ t = advance b 1 := by
  rw [getByte_spec valid, prefix_window valid]
  by_cases inside : b.pos + 1 ≤ b.len
  · have within : b.pos < b.data.bytes.length := lt_of_lt_of_le inside valid.len_le
    have first : ahead b 1 = [b.data.bytes[b.pos]] := by
      rw [ahead, List.drop_eq_getElem_cons within, List.take_succ_cons, List.take_zero]
    rw [dif_pos inside, eq_comm (a := t)]
    simp only [List.length_singleton, inside, first, true_and, List.cons.injEq, and_true,
      Outcome.ok.injEq]
    exact Iff.rfl
  · simp [inside]

theorem getInteger_ok {α : Type} {b t : Buffer} (valid : Valid b) {n : Nat} {get : BufferM α}
    (ofBytes : List UInt8 → α) (toBytes : α → List UInt8) (width : ∀ val, (toBytes val).length = n)
    (inverse : ∀ bytes val, bytes.length = n → (ofBytes bytes = val ↔ bytes = toBytes val))
    (rule : get b = if b.pos + n ≤ b.len then .ok (ofBytes (ahead b n)) (advance b n)
      else .err .bufferOverflow b) (val : α) :
    get b = .ok val t ↔ toBytes val <+: window b ∧ t = advance b n := by
  rw [rule, prefix_window valid, width]
  by_cases inside : b.pos + n ≤ b.len
  · rw [if_pos inside, ← inverse _ _ (ahead_length valid inside)]
    simp only [inside, true_and, Outcome.ok.injEq, eq_comm (a := t)]
  · simp [inside]

theorem getU32_ok {b t : Buffer} (valid : Valid b) (val : UInt32) :
    getU32 b = .ok val t ↔ bigEndian 4 val.toNat <+: window b ∧ t = advance b 4 :=
  getInteger_ok valid _ (fun val : UInt32 => bigEndian 4 val.toNat)
    (fun _ => length_bigEndian _ _) (fun _ val width => u32_bytes width val) (getU32_spec valid) val

theorem getU64_ok {b t : Buffer} (valid : Valid b) (val : UInt64) :
    getU64 b = .ok val t ↔ bigEndian 8 val.toNat <+: window b ∧ t = advance b 8 :=
  getInteger_ok valid _ (fun val : UInt64 => bigEndian 8 val.toNat)
    (fun _ => length_bigEndian _ _) (fun _ val width => u64_bytes width val) (getU64_spec valid) val

theorem getBytes_ok_iff {b t : Buffer} (valid : Valid b) {n : Nat} {bytes : List UInt8} :
    getBytes n b = .ok bytes t ↔
      bytes.length = n ∧ bytes <+: window b ∧ t = advance b n := by
  rw [prefix_window valid]
  constructor
  · intro done
    obtain ⟨inside, rfl, rfl⟩ := getBytes_ok valid done
    have width := ahead_length valid inside
    exact ⟨width, ⟨by omega, by rw [width]⟩, rfl⟩
  · rintro ⟨rfl, ⟨inside, same⟩, rfl⟩
    have bound := len_lt b.data
    have length := valid.len_le
    rw [getBytes_spec valid (by omega), if_pos inside, same]

theorem getString_ok {b t : Buffer} (valid : Valid b) {bytes : List UInt8} :
    getString b = .ok bytes t ↔
      bytes.length ≤ MAX_STRING_LEN ∧ bigEndian 4 bytes.length ++ bytes <+: window b ∧
        t = advance b (4 + bytes.length) := by
  unfold getString
  rw [bind_ok]
  constructor
  · rintro ⟨len, moved, prefixed, done⟩
    obtain ⟨announces, rfl⟩ := (getU32_ok valid len).mp prefixed
    have inside : b.pos + 4 ≤ b.len := by
      have first := ((prefix_window valid).mp announces).1
      rwa [length_bigEndian] at first
    by_cases long : len.toNat > MAX_STRING_LEN
    · rw [if_pos long] at done
      cases done
    rw [if_neg long] at done
    obtain ⟨width, body, rfl⟩ := (getBytes_ok_iff (advance_valid valid inside)).mp done
    rw [window_advance] at body
    rw [width]
    exact ⟨by omega, append_prefix.mpr ⟨announces, by rwa [length_bigEndian]⟩,
      advance_advance _ _ _⟩
  · rintro ⟨short, begins, rfl⟩
    obtain ⟨announces, body⟩ := append_prefix.mp begins
    rw [length_bigEndian, ← window_advance] at body
    have inside : b.pos + 4 ≤ b.len := by
      have first := ((prefix_window valid).mp announces).1
      rwa [length_bigEndian] at first
    have small : bytes.length < 2 ^ 32 := by simp only [MAX_STRING_LEN] at short; omega
    have value : (UInt32.ofNat bytes.length).toNat = bytes.length :=
      UInt32.toNat_ofNat_of_lt' small
    refine ⟨UInt32.ofNat bytes.length, advance b 4,
      (getU32_ok valid _).mpr ⟨by rwa [value], rfl⟩, ?_⟩
    rw [value, if_neg (by omega), getBytes_ok_iff (advance_valid valid inside)]
    exact ⟨rfl, body, (advance_advance _ _ _).symm⟩

theorem get_ok {b t : Buffer} (valid : Valid b) {kind : Kind} {field : Field} :
    get kind b = .ok field t ↔ field.kind = kind ∧ Reads b field t := by
  cases kind with
  | u8 =>
    rw [get, map_ok]
    simp only [getByte_ok valid]
    cases field <;> simp [Field.kind, Reads, Field.Allowed, Field.encode]
  | u32 =>
    rw [get, map_ok]
    simp only [getU32_ok valid]
    cases field <;> simp [Field.kind, Reads, Field.Allowed, Field.encode]
  | u64 =>
    rw [get, map_ok]
    simp only [getU64_ok valid]
    cases field <;> simp [Field.kind, Reads, Field.Allowed, Field.encode]
  | raw len =>
    rw [get, map_ok]
    simp only [getBytes_ok_iff valid]
    cases field <;> simp [Field.kind, Reads, Field.Allowed, Field.encode]
    rintro rfl _
    rfl
  | string =>
    rw [get, map_ok]
    simp only [getString_ok valid]
    cases field <;> simp [Field.kind, Reads, Field.Allowed, Field.encode]

theorem Reads.valid {b t : Buffer} {field : Field} (reads : Reads b field t) (valid : Valid b) :
    Valid t := by
  obtain ⟨-, begins, rfl⟩ := reads
  exact advance_valid valid ((prefix_window valid).mp begins).1

/-! Lists of fields, by induction on the list. -/

/-- The get script succeeds exactly on an encoding of values of the wanted kinds. -/
theorem getAll_ok {b t : Buffer} (valid : Valid b) {kinds : List Kind} {fields : List Field} :
    getAll kinds b = .ok fields t ↔
      fields.map Field.kind = kinds ∧ (∀ field ∈ fields, field.Allowed) ∧
        encodeAll fields <+: window b ∧ t = advance b (encodeAll fields).length := by
  induction kinds generalizing b fields with
  | nil =>
    rw [getAll, pure_apply, List.map_eq_nil_iff]
    constructor
    · rintro same
      cases same
      exact ⟨rfl, by simp, List.nil_prefix, rfl⟩
    · rintro ⟨rfl, -, -, rfl⟩
      rfl
  | cons kind rest ih =>
    rw [getAll, bind_ok]
    constructor
    · rintro ⟨field, middle, first, later⟩
      obtain ⟨others, last, tail, done⟩ := bind_ok.mp later
      cases done
      obtain ⟨sort, reads⟩ := (get_ok valid).mp first
      obtain ⟨sorts, allowed, begins, moved⟩ := (ih (reads.valid valid)).mp tail
      obtain ⟨permitted, here, rfl⟩ := reads
      rw [window_advance] at begins
      refine ⟨by rw [List.map_cons, sort, sorts], List.forall_mem_cons.mpr ⟨permitted, allowed⟩,
        append_prefix.mpr ⟨here, begins⟩, ?_⟩
      rw [moved, advance_advance, encodeAll_cons_length]
    · rintro ⟨sorts, allowed, begins, moved⟩
      cases fields with
      | nil => cases sorts
      | cons field others =>
        obtain ⟨sort, sorts⟩ := List.cons.inj sorts
        obtain ⟨permitted, allowed⟩ := List.forall_mem_cons.mp allowed
        obtain ⟨here, begins⟩ := append_prefix.mp begins
        have reads : Reads b field (advance b field.encode.length) := ⟨permitted, here, rfl⟩
        rw [← window_advance] at begins
        rw [encodeAll_cons_length, ← advance_advance] at moved
        have tail := (ih (reads.valid valid)).mpr ⟨sorts, allowed, begins, moved⟩
        exact ⟨field, _, (get_ok valid).mpr ⟨sort, reads⟩, bind_ok.mpr ⟨others, _, tail, rfl⟩⟩

theorem stored_nil {b : Buffer} (valid : Valid b) : stored b [] = b := by
  have storage : b.data.store b.pos [] = b.data := by
    have fits : b.pos + ([] : List UInt8).length ≤ b.data.len := valid.pos_le_data
    ext1
    · rw [ByteVec.bytes_store fits, splice_nil]
    · rfl
    · rfl
  have cursor := valid.pos_le
  simp only [stored, storage, List.length_nil, Nat.add_zero, max_eq_left cursor]

theorem put_spec {b : Buffer} (valid : Valid b) (writer : RawWriter) {field : Field}
    (allowed : field.Allowed) (fits : b.pos + field.encode.length ≤ b.data.len) :
    put writer field b = .ok () (stored b field.encode) := by
  have bound := len_lt b.data
  cases field with
  | u8 val => exact (putByte_spec valid val).trans (if_pos fits)
  | u32 val =>
    rw [Field.encode, length_bigEndian] at fits
    exact (putU32_spec valid val).trans (if_pos fits)
  | u64 val =>
    rw [Field.encode, length_bigEndian] at fits
    exact (putU64_spec valid val).trans (if_pos fits)
  | raw bytes =>
    simp only [Field.encode] at fits
    cases writer with
    | putBytes => exact (putBytes_spec valid (by omega)).trans (if_pos fits)
    | putBytesFast target => exact (putBytesFast_spec valid target (by omega)).trans (if_pos fits)
  | string bytes =>
    rw [Field.encode, List.length_append, length_bigEndian, ← Nat.add_assoc] at fits
    have short : ¬ bytes.length > MAX_STRING_LEN := by simp only [Field.Allowed] at allowed; omega
    exact (putString_spec valid bytes).trans ((if_neg short).trans (if_pos fits))

theorem putAll_spec {b : Buffer} (valid : Valid b) {script : List (RawWriter × Field)}
    (allowed : ∀ item ∈ script, item.2.Allowed)
    (fits : b.pos + (encodeAll (script.map Prod.snd)).length ≤ b.data.len) :
    putAll script b = .ok () (stored b (encodeAll (script.map Prod.snd))) := by
  induction script generalizing b with
  | nil => exact congrArg (Outcome.ok ()) (stored_nil valid).symm
  | cons item rest ih =>
    obtain ⟨writer, field⟩ := item
    obtain ⟨permitted, allowed⟩ := List.forall_mem_cons.mp allowed
    simp only [List.map_cons, encodeAll, List.flatMap_cons, List.length_append] at fits ⊢
    have early : b.pos + field.encode.length ≤ b.data.len := by omega
    have late : (stored b field.encode).pos + (encodeAll (rest.map Prod.snd)).length ≤
        (stored b field.encode).data.len := by
      simp only [stored, ByteVec.len_store early, encodeAll]
      omega
    rw [putAll, bind_of_ok (put_spec valid writer permitted early),
      ih (stored_valid valid early) allowed late,
      stored_stored (by simp only [encodeAll]; omega), encodeAll]

theorem window_stored {b : Buffer} (valid : Valid b) {src : List UInt8}
    (fits : b.pos + src.length ≤ b.data.len) :
    src <+: window { stored b src with pos := b.pos } := by
  have back : Valid { stored b src with pos := b.pos } :=
    ⟨le_trans valid.pos_le (le_max_left _ _), (stored_valid valid fits).len_le⟩
  rw [prefix_window back]
  refine ⟨le_max_right _ _, ?_⟩
  simp only [ahead, stored, ByteVec.bytes_store fits]
  exact read_splice _ _ _ fits

theorem setPos_stored {b : Buffer} (valid : Valid b) (src : List UInt8) :
    Buffer.setPos b.pos (stored b src) = .ok () { stored b src with pos := b.pos } := by
  have cursor := valid.pos_le
  unfold Buffer.setPos
  rw [if_neg (by simp only [stored]; omega)]

theorem get_returns {b : Buffer} (valid : Valid b) {kind : Kind}
    (small : ∀ n, kind = .raw n → b.pos + n < 2 ^ 64) (reason : Fault) :
    get kind b ≠ .fault reason := by
  intro faulted
  cases kind with
  | u8 =>
    rw [get, Call.map, getByte_spec valid] at faulted
    split_ifs at faulted
  | u32 =>
    rw [get, Call.map, getU32_spec valid] at faulted
    split_ifs at faulted
  | u64 =>
    rw [get, Call.map, getU64_spec valid] at faulted
    split_ifs at faulted
  | raw n =>
    rw [get, Call.map, getBytes_spec valid (small n rfl)] at faulted
    split_ifs at faulted
  | string =>
    rw [get, Call.map, getString_spec valid] at faulted
    split_ifs at faulted

theorem getAll_returns {b : Buffer} (valid : Valid b) {kinds : List Kind}
    (small : ∀ n, .raw n ∈ kinds → b.len + n < 2 ^ 64) (reason : Fault) :
    getAll kinds b ≠ .fault reason := by
  induction kinds generalizing b with
  | nil => exact nofun
  | cons kind rest ih =>
    have here : ∀ n, kind = .raw n → b.pos + n < 2 ^ 64 := by
      rintro n rfl
      have bound := small n List.mem_cons_self
      have cursor := valid.pos_le
      omega
    intro faulted
    rw [getAll, bind_apply] at faulted
    cases first : get kind b with
    | fault cause => exact get_returns valid here cause first
    | err error t =>
      rw [first] at faulted
      cases faulted
    | ok field middle =>
      rw [first] at faulted
      obtain ⟨-, reads⟩ := (get_ok valid).mp first
      have later : ∀ n, .raw n ∈ rest → middle.len + n < 2 ^ 64 := by
        intro n member
        rw [reads.2.2]
        exact small n (List.mem_cons_of_mem _ member)
      simp only [bind_apply] at faulted
      cases second : getAll rest middle with
      | fault cause =>
        rw [second] at faulted
        cases faulted
        exact ih (reads.valid valid) later second
      | err error t =>
        rw [second] at faulted
        cases faulted
      | ok fields t =>
        rw [second] at faulted
        cases faulted

/-- Written fields are read back, and only encodings are read: for any field list that fits,
the readers return what the writers were given and end where they ended; for any list of
kinds, the readers succeed exactly when `as_slice()[pos..]` begins with an encoding of values
of those kinds, and what they return encodes to the bytes they moved over. A script without
a wrapping raw length never faults, so where it does not succeed it reports an error. -/
theorem fields_round_trip {b : Buffer} (reach : Reachable b) :
    (∀ script : List (RawWriter × Field), (∀ item ∈ script, item.2.Allowed) →
      b.pos + (encodeAll (script.map Prod.snd)).length ≤ b.data.len →
      ∃ written back, putAll script b = .ok () written ∧
        Buffer.setPos b.pos written = .ok () back ∧
        getAll (script.map fun item => item.2.kind) back =
          .ok (script.map Prod.snd) written) ∧
    ∀ kinds : List Kind, ∃ view, b.asSlice = .ok view ∧
      ((∃ fields t, getAll kinds b = .ok fields t) ↔
        ∃ fields, fields.map Field.kind = kinds ∧ (∀ field ∈ fields, field.Allowed) ∧
          encodeAll fields <+: view.drop b.pos) ∧
      (∀ fields t, getAll kinds b = .ok fields t →
        b.pos ≤ t.pos ∧ encodeAll fields = (view.take t.pos).drop b.pos) ∧
      ((∀ n, .raw n ∈ kinds → b.len + n < 2 ^ 64) →
        ∀ reason, getAll kinds b ≠ .fault reason) := by
  have valid := reach.valid
  refine ⟨?_, fun kinds => ⟨b.data.bytes.take b.len, Buffer.asSlice_of_valid valid,
    ?_, ?_, getAll_returns valid⟩⟩
  · intro script allowed fits
    have back := stored_valid valid fits
    have cursor : Valid { stored b (encodeAll (script.map Prod.snd)) with pos := b.pos } :=
      ⟨le_trans valid.pos_le (le_max_left _ _), back.len_le⟩
    refine ⟨_, _, putAll_spec valid allowed fits, setPos_stored valid _, ?_⟩
    rw [getAll_ok cursor, List.map_map]
    refine ⟨rfl, ?_, window_stored valid fits, rfl⟩
    intro field member
    obtain ⟨item, present, rfl⟩ := List.mem_map.mp member
    exact allowed item present
  · constructor
    · rintro ⟨fields, t, done⟩
      obtain ⟨sorts, allowed, begins, -⟩ := (getAll_ok valid).mp done
      exact ⟨fields, sorts, allowed, begins⟩
    · rintro ⟨fields, sorts, allowed, begins⟩
      exact ⟨fields, _, (getAll_ok valid).mpr ⟨sorts, allowed, begins, rfl⟩⟩
  · intro fields t done
    obtain ⟨-, -, begins, rfl⟩ := (getAll_ok valid).mp done
    have inside := ((prefix_window valid).mp begins).1
    refine ⟨Nat.le_add_right _ _, ?_⟩
    simp only [advance]
    rw [List.take_take, min_eq_left inside]
    have consumed := ((prefix_window valid).mp begins).2
    rw [List.drop_take, Nat.add_sub_cancel_left]
    exact consumed.symm

private def packet : ByteVec where
  bytes := [0, 0, 0, 0, 0, 0, 0, 0, 9, 9]
  spare := []
  released := []
  capacity_lt := by decide

theorem fields_round_trip_packet :
    ∃ written back,
      putAll [(.putBytes, .u8 7), (.putBytesFast .other, .raw [1, 2]), (.putBytes, .string [104])]
        (Buffer.fromVec packet) = .ok () written ∧
      Buffer.setPos 0 written = .ok () back ∧
      getAll [.u8, .raw 2, .string] back = .ok [.u8 7, .raw [1, 2], .string [104]] written :=
  (fields_round_trip ⟨_, .fromVec packet rfl, .refl⟩).1
    [(.putBytes, .u8 7), (.putBytesFast .other, .raw [1, 2]), (.putBytes, .string [104])]
    (by simp [Field.Allowed, MAX_STRING_LEN]) (by decide)

end Secbuf.FieldCodec
