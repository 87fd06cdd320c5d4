import Secbuf.FieldCodec

/-! Why a message is not read. Readers report an overflow exactly where the bytes end inside a field,
and an invalid string exactly where a length that is too large stands in front of one; everything in
front of that field has been read, and the cursor stands at it, or behind its length. -/

namespace Secbuf.CutMessages
open Calls BigEndian Storage BufferCore BufferOps BufferScript FieldCodec

/-- The bytes begin a field of the kind and do not complete it. That a string is too long can be told
from its four length bytes only. -/
def Cut (kind : Kind) (part : List UInt8) : Prop :=
  ∃ field : Field, field.kind = kind ∧ part <+: field.encode ∧
    part.length < field.encode.length ∧ (field.Allowed ∨ part.length < 4)

/-- What a reader has moved over when it finds a field cut. -/
def swallowed : Kind → List UInt8 → Nat
  | .string, part => if 4 ≤ part.length then 4 else 0
  | _, _ => 0

def Oversized (kind : Kind) (part : List UInt8) : Prop :=
  kind = .string ∧ ∃ n, MAX_STRING_LEN < n ∧ n < 2 ^ 32 ∧ bigEndian 4 n <+: part

/-- The bytes are whole fields of the first kinds, then something of the next kind that meets `Bad`;
the cursor is behind the whole fields and `lost` bytes more. -/
def StopsAt (Bad : Kind → List UInt8 → Prop) (lost : Kind → List UInt8 → Nat) (kinds : List Kind)
    (b t : Buffer) : Prop :=
  ∃ front kind rest part, kinds = front.map Field.kind ++ kind :: rest ∧
    (∀ field ∈ front, field.Allowed) ∧ window b = encodeAll front ++ part ∧ Bad kind part ∧
    t = advance b ((encodeAll front).length + lost kind part)

def width : Kind → Option Nat
  | .u8 => some 1
  | .u32 => some 4
  | .u64 => some 8
  | .raw n => some n
  | .string => none

/-! A field that is cut. -/

theorem exists_field {kind : Kind} {n : Nat} (fixed : width kind = some n) (bytes : List UInt8)
    (length : bytes.length = n) : ∃ field : Field, field.kind = kind ∧ field.encode = bytes ∧ field.Allowed := by
  cases kind with
  | u8 =>
    cases fixed
    obtain ⟨byte, rfl⟩ := List.length_eq_one_iff.mp length
    exact ⟨.u8 byte, rfl, rfl, trivial⟩
  | u32 =>
    cases fixed
    exact ⟨.u32 _, rfl, ((u32_bytes length _).mp rfl).symm, trivial⟩
  | u64 =>
    cases fixed
    exact ⟨.u64 _, rfl, ((u64_bytes length _).mp rfl).symm, trivial⟩
  | raw m =>
    cases fixed
    subst length
    exact ⟨.raw bytes, rfl, rfl, trivial⟩
  | string => cases fixed

theorem encode_length {field : Field} {n : Nat} (fixed : width field.kind = some n) :
    field.encode.length = n := by
  cases field with
  | u8 | raw => exact Option.some.inj fixed
  | u32 | u64 =>
    cases fixed
    exact length_bigEndian _ _
  | string => cases fixed

theorem cut_fixed_iff {kind : Kind} {n : Nat} (fixed : width kind = some n) (part : List UInt8) :
    Cut kind part ↔ part.length < n := by
  constructor
  · rintro ⟨field, rfl, -, short, -⟩
    exact encode_length fixed ▸ short
  · intro short
    obtain ⟨field, sort, same, allowed⟩ := exists_field fixed
      (part ++ ByteVec.zeros (n - part.length)) (by simp; omega)
    refine ⟨field, sort, same ▸ List.prefix_append .., ?_, Or.inl allowed⟩
    rw [same]
    simp
    omega

theorem exists_string {header : List UInt8} (four : header.length = 4) (body : List UInt8)
    (length : body.length = ofBigEndian header) :
    ∃ field : Field, field.kind = .string ∧ field.encode = header ++ body ∧
      (body.length ≤ MAX_STRING_LEN → field.Allowed) := by
  refine ⟨.string body, rfl, ?_, id⟩
  rw [Field.encode, length, ← four, bigEndian_ofBigEndian]

theorem cut_string_iff (part : List UInt8) :
    Cut .string part ↔ part.length < 4 ∨
      (ofBigEndian (part.take 4) ≤ MAX_STRING_LEN ∧ part.length < 4 + ofBigEndian (part.take 4)) := by
  constructor
  · rintro ⟨field, sort, begins, short, allowed⟩
    cases field with
    | string body =>
      by_cases header : part.length < 4
      · exact Or.inl header
      · right
        have small : body.length ≤ MAX_STRING_LEN := allowed.resolve_right header
        rw [Field.encode, List.length_append, length_bigEndian] at short
        have four : part.take 4 = bigEndian 4 body.length := by
          have taken := (begins.take 4).eq_of_length (by simp [Field.encode]; omega)
          rw [taken, Field.encode, List.take_left' (length_bigEndian ..)]
        have value : ofBigEndian (part.take 4) = body.length := by
          rw [four, ofBigEndian_bigEndian]
          simp only [MAX_STRING_LEN] at small
          omega
        omega
    | _ => cases sort
  · intro short
    by_cases header : part.length < 4
    · have four : (part ++ ByteVec.zeros (4 - part.length)).length = 4 := by simp; omega
      obtain ⟨field, sort, same, -⟩ := exists_string four (ByteVec.zeros _) (ByteVec.zeros_length _)
      refine ⟨field, sort, ?_, ?_, Or.inr header⟩
      · rw [same, List.append_assoc]
        exact List.prefix_append ..
      · rw [same, List.length_append, four]
        omega
    · obtain ⟨small, short⟩ := short.resolve_left header
      have four : (part.take 4).length = 4 := by simp; omega
      have length : (part.drop 4 ++ ByteVec.zeros (4 + ofBigEndian (part.take 4) - part.length)).length =
          ofBigEndian (part.take 4) := by simp; omega
      obtain ⟨field, sort, same, allowed⟩ := exists_string four _ length
      refine ⟨field, sort, ?_, ?_, Or.inl (allowed (by rw [length]; exact small))⟩
      · rw [same, ← List.append_assoc, List.take_append_drop]
        exact List.prefix_append ..
      · rw [same, List.length_append, four, length]
        exact short

/-! One reader. -/

theorem failed_of_rule {α : Type} {call : BufferM α} {b t u : Buffer} {p : Prop} [Decidable p] {value : α}
    {error : BufferError} (rule : call b = if p then .ok value u else .err .bufferOverflow b)
    (read : α → Field) : call.map read b = .err error t ↔ error = .bufferOverflow ∧ ¬ p ∧ t = b := by
  unfold Call.map
  rw [rule]
  by_cases met : p
  · rw [if_pos met]
    exact iff_of_false (by intro failed; cases failed) (fun wants => wants.2.1 met)
  · rw [if_neg met]
    constructor
    · intro failed
      cases failed
      exact ⟨rfl, met, rfl⟩
    · rintro ⟨rfl, -, rfl⟩
      rfl

theorem get_fixed {b t : Buffer} (valid : Valid b) {kind : Kind} {n : Nat} (fixed : width kind = some n)
    (small : b.pos + n < 2 ^ 64) {error : BufferError} :
    get kind b = .err error t ↔ error = .bufferOverflow ∧ ¬ b.pos + n ≤ b.len ∧ t = b := by
  cases kind with
  | u8 =>
    cases fixed
    obtain ⟨value, rule⟩ : ∃ value, getByte b =
        if b.pos + 1 ≤ b.len then .ok value (advance b 1) else .err .bufferOverflow b := by
      have rule := getByte_spec valid
      by_cases inside : b.pos + 1 ≤ b.len
      · rw [dif_pos inside] at rule
        exact ⟨_, rule.trans (if_pos inside).symm⟩
      · rw [dif_neg inside] at rule
        exact ⟨0, rule.trans (if_neg inside).symm⟩
    exact failed_of_rule rule _
  | u32 =>
    cases fixed
    exact failed_of_rule (getU32_spec valid) _
  | u64 =>
    cases fixed
    exact failed_of_rule (getU64_spec valid) _
  | raw m =>
    cases fixed
    exact failed_of_rule (getBytes_spec valid small) _
  | string => cases fixed

theorem announced_eq {b : Buffer} (inside : b.pos + 4 ≤ b.len) :
    announced b = ofBigEndian ((window b).take 4) := by
  rw [take_window inside, announced]

theorem get_string_failed {b t : Buffer} (valid : Valid b) {error : BufferError} :
    get .string b = .err error t ↔
      (error = .bufferOverflow ∧ Cut .string (window b) ∨
        error = .invalidString ∧ 4 ≤ (window b).length ∧
          MAX_STRING_LEN < ofBigEndian ((window b).take 4)) ∧
      t = advance b (swallowed .string (window b)) := by
  have cursor := valid.pos_le
  have length := window_length valid
  have rule := getString_spec valid
  rw [cut_string_iff]
  change getString.map Field.string b = _ ↔ _
  unfold Call.map
  rw [rule]
  by_cases inside : b.pos + 4 ≤ b.len
  · have four : 4 ≤ (window b).length := by omega
    rw [if_pos inside, announced_eq inside]
    simp only [swallowed, if_pos four]
    split_ifs with large whole
    · constructor
      · intro failed
        cases failed
        exact ⟨Or.inr ⟨rfl, four, large⟩, rfl⟩
      · rintro ⟨⟨rfl, cut⟩ | ⟨rfl, -⟩, rfl⟩
        · omega
        · rfl
    · apply iff_of_false
      · intro failed
        cases failed
      · rintro ⟨⟨rfl, cut⟩ | ⟨rfl, -, exceeds⟩, rfl⟩
        · omega
        · exact large exceeds
    · constructor
      · intro failed
        cases failed
        exact ⟨Or.inl ⟨rfl, by omega⟩, rfl⟩
      · rintro ⟨⟨rfl, cut⟩ | ⟨rfl, -, exceeds⟩, rfl⟩
        · rfl
        · exact absurd exceeds large
  · have short : ¬ 4 ≤ (window b).length := by omega
    rw [if_neg inside]
    simp only [swallowed, if_neg short]
    constructor
    · intro failed
      cases failed
      exact ⟨Or.inl ⟨rfl, by omega⟩, rfl⟩
    · rintro ⟨⟨rfl, cut⟩ | ⟨rfl, four, -⟩, rfl⟩
      · rfl
      · exact absurd four short

theorem swallowed_fixed {kind : Kind} {n : Nat} (fixed : width kind = some n) (part : List UInt8) :
    swallowed kind part = 0 := by
  cases kind with
  | string => cases fixed
  | _ => rfl

theorem nowrap_fixed {b : Buffer} (valid : Valid b) {kind : Kind} {n : Nat} (fixed : width kind = some n)
    (small : ∀ n, kind = .raw n → b.pos + n < 2 ^ 64) : b.pos + n < 2 ^ 64 := by
  cases kind with
  | raw m =>
    cases fixed
    exact small n rfl
  | string => cases fixed
  | _ =>
    cases fixed
    exact nowrap valid (by decide)

theorem get_cut (b t : Buffer) (kind : Kind) (valid : Valid b)
    (small : ∀ n, kind = .raw n → b.pos + n < 2 ^ 64) :
    get kind b = .err .bufferOverflow t ↔
      Cut kind (window b) ∧ t = advance b (swallowed kind (window b)) := by
  cases fixed : width kind with
  | some n =>
    have cursor := valid.pos_le
    have short : Cut kind (window b) ↔ ¬ b.pos + n ≤ b.len := by
      rw [cut_fixed_iff fixed, window_length valid]
      omega
    rw [get_fixed valid fixed (nowrap_fixed valid fixed small), swallowed_fixed fixed, short]
    exact and_iff_right rfl
  | none =>
    cases kind with
    | string =>
      rw [get_string_failed valid]
      simp
    | _ => cases fixed

theorem oversized_string_iff (part : List UInt8) :
    Oversized .string part ↔ 4 ≤ part.length ∧ MAX_STRING_LEN < ofBigEndian (part.take 4) := by
  constructor
  · rintro ⟨-, n, large, small, begins⟩
    have four := begins.length_le
    rw [length_bigEndian] at four
    have taken : part.take 4 = bigEndian 4 n := by
      have same := List.prefix_iff_eq_take.mp begins
      rw [length_bigEndian] at same
      exact same.symm
    rw [taken, ofBigEndian_bigEndian, Nat.mod_eq_of_lt (by omega)]
    exact ⟨four, large⟩
  · rintro ⟨four, large⟩
    have length : (part.take 4).length = 4 := by simp; omega
    have bound := ofBigEndian_lt (part.take 4)
    have same := bigEndian_ofBigEndian (part.take 4)
    rw [length] at bound same
    refine ⟨rfl, _, large, bound, ?_⟩
    rw [same]
    exact List.take_prefix ..

theorem get_oversized (b t : Buffer) (kind : Kind) (valid : Valid b)
    (small : ∀ n, kind = .raw n → b.pos + n < 2 ^ 64) :
    get kind b = .err .invalidString t ↔ Oversized kind (window b) ∧ t = advance b 4 := by
  cases fixed : width kind with
  | some n =>
    rw [get_fixed valid fixed (nowrap_fixed valid fixed small)]
    apply iff_of_false (by simp)
    rintro ⟨⟨rfl, -⟩, -⟩
    cases fixed
  | none =>
    cases kind with
    | string =>
      rw [get_string_failed valid, oversized_string_iff]
      simp only [reduceCtorEq, false_and, false_or, true_and]
      exact and_congr_right fun large => by rw [swallowed, if_pos large.1]
    | _ => cases fixed

/-! A script of readers, by induction on the kinds. -/

/-- Where a single reader stops at what meets `Bad`, a script does. -/
theorem getAll_stops (Bad : Kind → List UInt8 → Prop) (lost : Kind → List UInt8 → Nat)
    (error : BufferError)
    (one : ∀ b t kind, Valid b → (∀ n, kind = .raw n → b.pos + n < 2 ^ 64) →
      (get kind b = .err error t ↔ Bad kind (window b) ∧ t = advance b (lost kind (window b))))
    {b t : Buffer} (valid : Valid b) {kinds : List Kind}
    (small : ∀ n, .raw n ∈ kinds → b.len + n < 2 ^ 64) :
    getAll kinds b = .err error t ↔ StopsAt Bad lost kinds b t := by
  induction kinds generalizing b with
  | nil =>
    apply iff_of_false (by rw [getAll, pure_apply]; intro done; cases done)
    rintro ⟨front, kind, rest, part, none, -⟩
    simp at none
  | cons kind rest ih =>
    have here : ∀ n, kind = .raw n → b.pos + n < 2 ^ 64 := by
      rintro n rfl
      have bound := small n List.mem_cons_self
      have cursor := valid.pos_le
      omega
    rw [getAll, bind_err, one b t kind valid here]
    constructor
    · rintro (⟨bad, moved⟩ | ⟨field, middle, first, later⟩)
      · refine ⟨[], kind, rest, window b, rfl, by simp, rfl, bad, ?_⟩
        rwa [encodeAll, List.flatMap_nil, List.length_nil, Nat.zero_add]
      · obtain ⟨sort, reads⟩ := (get_ok valid).mp first
        have tail := (bind_err.mp later).resolve_right (by simp)
        have later : ∀ n, .raw n ∈ rest → middle.len + n < 2 ^ 64 := by
          intro n member
          rw [reads.2.2]
          exact small n (List.mem_cons_of_mem _ member)
        obtain ⟨front, other, others, part, sorts, allowed, shown, bad, moved⟩ :=
          (ih (reads.valid valid) later).mp tail
        obtain ⟨permitted, begins, rfl⟩ := reads
        rw [window_advance] at shown
        have whole := List.prefix_iff_eq_append.mp begins
        refine ⟨field :: front, other, others, part, ?_, ?_, ?_, bad, ?_⟩
        · rw [List.map_cons, List.cons_append, sort, sorts]
        · exact List.forall_mem_cons.mpr ⟨permitted, allowed⟩
        · rw [← whole, shown]
          simp only [encodeAll, List.flatMap_cons, List.append_assoc]
        · rw [moved, advance_advance, encodeAll_cons_length, Nat.add_assoc]
    · rintro ⟨front, other, others, part, sorts, allowed, shown, bad, moved⟩
      cases front with
      | nil =>
        obtain ⟨rfl, rfl⟩ := List.cons.inj sorts
        rw [encodeAll, List.flatMap_nil, List.nil_append] at shown
        rw [encodeAll, List.flatMap_nil, List.length_nil, Nat.zero_add] at moved
        rw [shown]
        exact Or.inl ⟨bad, moved⟩
      | cons field front =>
        obtain ⟨rfl, tails⟩ := List.cons.inj sorts
        obtain ⟨permitted, allowed⟩ := List.forall_mem_cons.mp allowed
        simp only [encodeAll, List.flatMap_cons, List.append_assoc] at shown
        have begins : field.encode <+: window b := shown ▸ List.prefix_append ..
        have reads : Reads b field (advance b field.encode.length) := ⟨permitted, begins, rfl⟩
        right
        refine ⟨field, _, (get_ok valid).mpr ⟨rfl, reads⟩, bind_err.mpr (Or.inl ?_)⟩
        refine (ih (reads.valid valid) fun n member => small n (List.mem_cons_of_mem _ member)).mpr
          ⟨front, other, others, part, tails, allowed, ?_, bad, ?_⟩
        · rw [window_advance, shown, List.drop_left]
          rfl
        · rw [moved, advance_advance, encodeAll_cons_length, Nat.add_assoc]

theorem get_failed {b t : Buffer} (valid : Valid b) {kind : Kind}
    (small : ∀ n, kind = .raw n → b.pos + n < 2 ^ 64) {error : BufferError}
    (failed : get kind b = .err error t) : error = .bufferOverflow ∨ error = .invalidString := by
  cases fixed : width kind with
  | some n => exact Or.inl ((get_fixed valid fixed (nowrap_fixed valid fixed small)).mp failed).1
  | none =>
    cases kind with
    | string => exact ((get_string_failed valid).mp failed).1.imp And.left And.left
    | _ => cases fixed

theorem getAll_failed {b t : Buffer} (valid : Valid b) {kinds : List Kind}
    (small : ∀ n, .raw n ∈ kinds → b.len + n < 2 ^ 64) {error : BufferError}
    (failed : getAll kinds b = .err error t) : error = .bufferOverflow ∨ error = .invalidString := by
  by_contra other
  have never : ∀ b t kind, Valid b → (∀ n, kind = .raw n → b.pos + n < 2 ^ 64) →
      (get kind b = .err error t ↔ False ∧ t = advance b 0) :=
    fun b t kind valid here => iff_of_false (fun failed => other (get_failed valid here failed)) (·.1)
  have stops := (getAll_stops (fun _ _ => False) (fun _ _ => 0) error never valid small).mp failed
  obtain ⟨_, _, _, _, -, -, -, none, -⟩ := stops
  exact none

/-- In every state that safe calls reach, and for all kinds of fields (raw lengths that do not wrap),
the readers report nothing but an overflow and an invalid string: an overflow exactly where
`as_slice()[pos..]` is whole fields and a part of the next one, an invalid string exactly where it is
whole fields and then a length above `MAX_STRING_LEN`. The cursor then stands behind the whole fields,
or behind the length of the string they stopped in. -/
theorem unread_messages {b : Buffer} (reach : ReachableWrapping b) (kinds : List Kind)
    (small : ∀ n, .raw n ∈ kinds → b.len + n < 2 ^ 64) :
    (∀ t, getAll kinds b = .err .bufferOverflow t ↔ StopsAt Cut swallowed kinds b t) ∧
    (∀ t, getAll kinds b = .err .invalidString t ↔ StopsAt Oversized (fun _ _ => 4) kinds b t) ∧
    ∀ error t, getAll kinds b = .err error t → error = .bufferOverflow ∨ error = .invalidString :=
  ⟨fun _ => getAll_stops _ _ _ get_cut reach.valid small,
    fun _ => getAll_stops _ _ _ get_oversized reach.valid small,
    fun _ _ failed => getAll_failed reach.valid small failed⟩

theorem unread_messages_cut :
    ∃ b, Made b ∧ getAll [.u8, .string] b = .err .bufferOverflow (advance b 5) ∧
      StopsAt Cut swallowed [.u8, .string] b (advance b 5) := by
  have made : Made (.fromVec ⟨[9, 0, 0, 0, 2, 7], [], [], by decide⟩) := .fromVec _ rfl
  have failed : getAll [.u8, .string] (.fromVec ⟨[9, 0, 0, 0, 2, 7], [], [], by decide⟩) =
      .err .bufferOverflow (advance (.fromVec ⟨[9, 0, 0, 0, 2, 7], [], [], by decide⟩) 5) := by rfl
  exact ⟨_, made, failed, ((unread_messages ⟨_, made, .refl⟩ _ (by simp)).1 _).mp failed⟩

end Secbuf.CutMessages
