import Secbuf.FieldCodec
import Secbuf.PairedCalls

/-! What a reader can tell about a buffer. Two buffers that show the same slice, with the cursor
in the same place, answer every reader alike, whatever else their storage holds. -/

namespace Secbuf.TwoRuns
open Calls BigEndian Storage BufferCore BufferOps BufferScript FieldCodec PairedCalls

/-- The calls of a reader; a length it asks for reaches no further than 64 bits from the cursor. -/
def Reading (b : Buffer) : BufferOp → Prop
  | .setPos _ | .incrPos _ | .decrPos _ | .remaining | .asSlice => True
  | .getByte | .getBool | .getU32 | .getU64 | .getPtr _ | .getString | .eatString => True
  | .getBytes len | .getBytesRef len => b.pos + len < 2 ^ 64
  | _ => False

/-- Two buffers a reader is given the same view of. -/
structure Alike (b c : Buffer) : Prop where
  first : Valid b
  second : Valid c
  pos_eq : b.pos = c.pos
  len_eq : b.len = c.len
  view_eq : b.data.bytes.take b.len = c.data.bytes.take c.len

abbrev SameAnswer {α : Type} : Outcome Buffer BufferError α → Outcome Buffer BufferError α → Prop :=
  Paired False Eq Eq Alike

section
variable {α : Type} {b c : Buffer}

theorem alike_of_views (first : Valid b) (second : Valid c) (view : b.asSlice = c.asSlice)
    (pos : b.pos = c.pos) : Alike b c := by
  rw [Buffer.asSlice_of_valid first, Buffer.asSlice_of_valid second] at view
  have bytes : b.data.bytes.take b.len = c.data.bytes.take c.len := Except.ok.inj view
  have width := congrArg List.length bytes
  have inside : b.len ≤ b.data.bytes.length := first.len_le
  have inside' : c.len ≤ c.data.bytes.length := second.len_le
  rw [List.length_take, List.length_take] at width
  exact ⟨first, second, pos, by omega, bytes⟩

theorem Alike.moved (alike : Alike b c) {pos : Nat} (inside : pos ≤ b.len) :
    Alike { b with pos := pos } { c with pos := pos } :=
  ⟨⟨inside, alike.first.len_le⟩, ⟨alike.len_eq ▸ inside, alike.second.len_le⟩, rfl, alike.len_eq,
    alike.view_eq⟩

theorem Alike.advanced (alike : Alike b c) {n : Nat} (inside : b.pos + n ≤ b.len) :
    Alike (advance b n) (advance c n) := by
  have moved := alike.moved inside
  rw [advance, advance, ← alike.pos_eq]
  exact moved

theorem Alike.ahead_eq (alike : Alike b c) {n : Nat} (inside : b.pos + n ≤ b.len) :
    ahead b n = ahead c n := by
  have windows : window b = window c := by
    rw [window, window, alike.view_eq, alike.pos_eq]
  have inside' : c.pos + n ≤ c.len := by
    rw [← alike.pos_eq, ← alike.len_eq]
    exact inside
  calc
    ahead b n = (window b).take n := (take_window inside).symm
    _ = (window c).take n := by rw [windows]
    _ = ahead c n := take_window inside'

theorem same_rule (alike : Alike b c) {error : BufferError} {p q : Prop} [Decidable p] [Decidable q]
    {done done' : Outcome Buffer BufferError α} (needs : p ↔ q) (meets : p → SameAnswer done done') :
    SameAnswer (if p then done else .err error b) (if q then done' else .err error c) := by
  by_cases met : p
  · rw [if_pos met, if_pos (needs.mp met)]
    exact meets met
  · rw [if_neg met, if_neg (mt needs.mpr met)]
    exact .err rfl alike

theorem Alike.room (alike : Alike b c) (n : Nat) : b.pos + n ≤ b.len ↔ c.pos + n ≤ c.len := by
  rw [alike.pos_eq, alike.len_eq]

theorem same_read (alike : Alike b c) {n : Nat} {get : BufferM α} (read : List UInt8 → α)
    (rule : ∀ b, Valid b → b.pos + n < 2 ^ 64 → get b =
      if b.pos + n ≤ b.len then .ok (read (ahead b n)) (advance b n) else .err .bufferOverflow b)
    (fits : b.pos + n < 2 ^ 64) : SameAnswer (get b) (get c) := by
  rw [rule b alike.first fits, rule c alike.second (alike.pos_eq ▸ fits)]
  apply same_rule alike (alike.room n)
  intro inside
  exact .ok (congrArg read (alike.ahead_eq inside)) (alike.advanced inside)

theorem same_getU32 (alike : Alike b c) : SameAnswer (getU32 b) (getU32 c) :=
  same_read alike (fun bytes => UInt32.ofNat (ofBigEndian bytes)) (fun _ valid _ => getU32_spec valid)
    (nowrap alike.first (by decide))

theorem same_getU64 (alike : Alike b c) : SameAnswer (getU64 b) (getU64 c) :=
  same_read alike (fun bytes => UInt64.ofNat (ofBigEndian bytes)) (fun _ valid _ => getU64_spec valid)
    (nowrap alike.first (by decide))

theorem same_getBytes (alike : Alike b c) {n : Nat} (fits : b.pos + n < 2 ^ 64) :
    SameAnswer (getBytes n b) (getBytes n c) :=
  same_read alike id (fun _ valid => getBytes_spec valid) fits

theorem getByte_ahead {b : Buffer} (valid : Valid b) :
    getByte b = if b.pos + 1 ≤ b.len then .ok ((ahead b 1).headD 0) (advance b 1)
      else .err .bufferOverflow b := by
  rw [getByte_spec valid]
  by_cases inside : b.pos + 1 ≤ b.len
  · have here : b.pos < b.data.bytes.length := lt_of_lt_of_le inside valid.len_le
    rw [dif_pos inside, if_pos inside, ahead, List.drop_eq_getElem_cons here]
    rfl
  · rw [dif_neg inside, if_neg inside]

theorem same_getByte (alike : Alike b c) : SameAnswer (getByte b) (getByte c) :=
  same_read alike (fun bytes => bytes.headD 0) (fun _ valid _ => getByte_ahead valid)
    (nowrap alike.first (by decide))

theorem same_incrPos (alike : Alike b c) {n : Nat} (small : n ≤ BUF_MAX_INCR) :
    SameAnswer (Buffer.incrPos n b) (Buffer.incrPos n c) := by
  rw [incrPos_spec alike.first small, incrPos_spec alike.second small]
  apply same_rule alike (alike.room n)
  intro inside
  exact .ok rfl (alike.advanced inside)

theorem same_getPtr (alike : Alike b c) (n : Nat) : SameAnswer (getPtr n b) (getPtr n c) := by
  rw [getPtr_spec alike.first, getPtr_spec alike.second]
  apply same_rule alike (and_congr_right fun _ => alike.room n)
  intro needs
  exact .ok (alike.ahead_eq needs.2) alike

/-- Both string readers: the prefix, the limit, and then a body of the length it announces. -/
theorem same_prefixed (alike : Alike b c) {body : Nat → BufferM α}
    (same : ∀ {s t : Buffer} (n : Nat), Alike s t → n ≤ MAX_STRING_LEN → SameAnswer (body n s) (body n t)) :
    SameAnswer
      ((getU32 >>= fun len => if len.toNat > MAX_STRING_LEN then Call.raise .invalidString
        else body len.toNat) b)
      ((getU32 >>= fun len => if len.toNat > MAX_STRING_LEN then Call.raise .invalidString
        else body len.toNat) c) := by
  apply Paired.bind (same_getU32 alike)
  rintro len _ s t rfl moved
  by_cases long : len.toNat > MAX_STRING_LEN
  · simp only [if_pos long, raise_apply]
    exact .err rfl moved
  · simp only [if_neg long]
    exact same len.toNat moved (by omega)

theorem same_getString (alike : Alike b c) : SameAnswer (getString b) (getString c) := by
  apply same_prefixed alike
  intro s t n moved short
  exact same_getBytes moved (nowrap moved.first (by simp only [MAX_STRING_LEN] at short; omega))

theorem same_eatString (alike : Alike b c) : SameAnswer (eatString b) (eatString c) := by
  apply same_prefixed alike
  intro s t n moved short
  exact same_incrPos moved (by simp only [MAX_STRING_LEN] at short; simp only [BUF_MAX_INCR]; omega)

theorem same_step (alike : Alike b c) {op : BufferOp} (reading : Reading b op) :
    SameAnswer (step op b) (step op c) := by
  have reads {β : Type} {get : BufferM β} (answer : β → Reply)
      (same : SameAnswer (get b) (get c)) : SameAnswer (get.map answer b) (get.map answer c) :=
    same.map fun _ _ values => congrArg answer values
  cases op with
  | setPos pos =>
    apply reads
    unfold Buffer.setPos
    by_cases exceeds : pos > b.len
    · rw [if_pos exceeds, if_pos (alike.len_eq ▸ exceeds)]
      exact .err rfl alike
    · rw [if_neg exceeds, if_neg (alike.len_eq ▸ exceeds)]
      exact .ok rfl (alike.moved (by omega))
  | incrPos incr =>
    apply reads
    by_cases small : incr ≤ BUF_MAX_INCR
    · exact same_incrPos alike small
    · unfold Buffer.incrPos
      rw [if_pos (Or.inl (by omega)), if_pos (Or.inl (by omega))]
      exact .err rfl alike
  | decrPos decr =>
    apply reads
    have cursor := alike.first.pos_le
    unfold Buffer.decrPos
    by_cases exceeds : decr > b.pos
    · rw [if_pos exceeds, if_pos (alike.pos_eq ▸ exceeds)]
      exact .err rfl alike
    · rw [if_neg exceeds, if_neg (alike.pos_eq ▸ exceeds), ← alike.pos_eq]
      exact .ok rfl (alike.moved (by omega))
  | remaining =>
    have left : b.remaining = c.remaining := by
      rw [Buffer.remaining, Buffer.remaining, alike.pos_eq, alike.len_eq]
    exact .ok (congrArg Reply.size left) alike
  | asSlice =>
    apply reads
    rw [asSliceCall_spec alike.first, asSliceCall_spec alike.second]
    exact .ok alike.view_eq alike
  | getByte => exact reads _ (same_getByte alike)
  | getBool =>
    apply reads
    rw [getBool_eq, getBool_eq]
    exact (same_getByte alike).map fun _ _ values => congrArg (· != 0) values
  | getU32 => exact reads _ (same_getU32 alike)
  | getU64 => exact reads _ (same_getU64 alike)
  | getBytes len => exact reads _ (same_getBytes alike reading)
  | getBytesRef len => exact reads _ (same_getBytes alike reading)
  | getPtr len => exact reads _ (same_getPtr alike len)
  | getString => exact reads _ (same_getString alike)
  | eatString => exact reads _ (same_eatString alike)
  | _ => cases reading

/-- Two buffers in any states that show the same slice, with equal cursors: every reader, even one
that chooses its next call by the answers so far, is given the same values and the same errors by
both, and leaves their cursors equal. -/
theorem readers_see_the_view (first : ReachableWrapping b) (second : ReachableWrapping c)
    (view : b.asSlice = c.asSlice) (pos : b.pos = c.pos)
    (reader : Client BufferOp (Except BufferError Reply)) (reads : Asks step Reading reader b) :
    ∃ answers t u, converse step reader b = some (answers, t) ∧
      converse step reader c = some (answers, u) ∧ t.pos = u.pos ∧ t.asSlice = u.asSlice := by
  have alike := alike_of_views first.valid second.valid view pos
  obtain ⟨answers, t, u, here, there, after⟩ :=
    converse_alike step (fun _ _ _ related reading => same_step related reading) reader alike reads
  refine ⟨answers, t, u, here, there, after.pos_eq, ?_⟩
  rw [Buffer.asSlice_of_valid after.first, Buffer.asSlice_of_valid after.second, after.view_eq]

/-- A length prefix decides how much is asked for next, and one byte more is asked for then. -/
def prefixedReader : Client BufferOp (Except BufferError Reply) :=
  .ask .getU32 fun answer =>
    match answer with
    | .ok (.u32 len) => .ask (.getBytes len.toNat) fun _ => .ask .getByte fun _ => .done
    | _ => .done

theorem prefixedReader_reads (valid : Valid b) : Asks step Reading prefixedReader b := by
  rw [prefixedReader, Asks]
  refine ⟨trivial, ?_⟩
  cases read : step .getU32 b with
  | ok reply t =>
    have after : Valid t := (step_lands valid .getU32 t (by rw [read]; rfl)).1
    cases reply with
    | u32 len =>
      have fits : t.pos + len.toNat < 2 ^ 64 := nowrap after (by have := len.toNat_lt; omega)
      have last (u : Buffer) : Reading u .getByte := trivial
      simp only
      rw [Asks]
      refine ⟨fits, ?_⟩
      cases step (.getBytes len.toNat) t with
      | ok _ u => exact asks_last step (last u)
      | err _ u => exact asks_last step (last u)
      | fault reason => trivial
    | _ => trivial
  | err error t => trivial
  | fault reason => trivial

theorem readers_see_the_view_stale :
    ∃ b c answers t u, b.data.len = 7 ∧ c.data.len = 5 ∧
      converse step prefixedReader b = some (answers, t) ∧
      converse step prefixedReader c = some (answers, u) ∧ t.pos = u.pos := by
  have wide : ∃ start b, Buffer.new 7 = .ok start ∧ exec (fun b op => (step op b).state?) start
      [.putBytes ⟨[0, 0, 0, 1, 9, 77, 78], by decide⟩, .setLen 5, .setPos 0] = some b ∧
      b.asSlice = .ok [0, 0, 0, 1, 9] ∧ b.pos = 0 ∧ b.data.len = 7 :=
    ⟨_, _, rfl, rfl, rfl, rfl, rfl⟩
  obtain ⟨start, b, made, script, view, pos, room⟩ := wide
  have stale : ReachableWrapping b := .of_exec (.new made) script
  have exact : ReachableWrapping (Buffer.fromVec ⟨[0, 0, 0, 1, 9], [], [], by decide⟩) :=
    ⟨_, .fromVec _ rfl, .refl⟩
  obtain ⟨answers, t, u, first, second, same, -⟩ :=
    readers_see_the_view stale exact (view.trans rfl) (pos.trans rfl) prefixedReader
      (prefixedReader_reads stale.valid)
  exact ⟨b, _, answers, t, u, room, rfl, first, second, same⟩

end

end Secbuf.TwoRuns
