import Secbuf.PairedCalls
import Secbuf.UncheckedPuts

/-! Programs that call the unchecked operations where they could call the checked ones. Under the
documented preconditions the two are one program as long as every unchecked write ends within the
vector's length, and the preconditions are enough for that in a block without spare bytes. -/

namespace Secbuf.UncheckedRuns
open Calls PairedCalls BigEndian Storage BufferCore BufferOps BufferScript UncheckedPuts

def run : AnyOp → BufferM Reply
  | .safe op => BufferScript.step op
  | .put put => put.run.map fun _ => .unit
  | .get get => get.run

def checkedWriter : UncheckedPut → BufferM Unit
  | .putU32 val => putU32 val
  | .putU64 val => putU64 val
  | .putBytes bytes => putBytes bytes

def checkedReader : UncheckedGet → BufferM Reply
  | .getU32 => getU32.map .u32
  | .getU64 => getU64.map .u64
  | .getBytes len => (getBytes len).map .bytes

/-- The same with the checked sibling of every unchecked operation. -/
def checked : AnyOp → BufferM Reply
  | .safe op => BufferScript.step op
  | .put put => (checkedWriter put).map fun _ => .unit
  | .get get => checkedReader get

def Safety (b : Buffer) : AnyOp → Prop
  | .safe _ => True
  | .put put => put.Safety b
  | .get get => get.Safety b

instance (b : Buffer) : (op : AnyOp) → Decidable (Safety b op)
  | .safe _ => inferInstanceAs (Decidable True)
  | .put _ | .get _ => inferInstanceAs (Decidable (_ ≤ _))

def Answered (b : Buffer) : AnyOp → Prop
  | .safe _ => True
  | .put put => ∃ t, put.run b = .ok () t ∧ Valid t
  | .get get => ∃ reply t, get.run b = .ok reply t ∧ Valid t

/-- The call neither grows the vector nor cuts it short of its block. -/
def Unsized (b : Buffer) : AnyOp → Prop
  | .safe op =>
    match op.change b with
    | .resize n => n = b.data.len
    | .reserve additional => additional = 0
    | .zeroize => b.data.len = 0
    | _ => True
  | _ => True

theorem checkedWriter_eq (put : UncheckedPut) :
    checkedWriter put = checkedPut put.encoding.length put.run := by
  cases put with
  | putU32 val => rw [UncheckedPut.encoding, length_bigEndian]; rfl
  | putU64 val => rw [UncheckedPut.encoding, length_bigEndian]; rfl
  | putBytes bytes => rfl

theorem checkedGet_map {α β : Type} (n : Nat) (get : BufferM α) (read : α → β) :
    (checkedGet n get).map read = checkedGet n (get.map read) := by
  funext b
  by_cases above : usizeAdd b.pos n > b.len
  · simp only [Call.map, checkedGet, if_pos above]
  · simp only [Call.map, checkedGet, if_neg above]

theorem checkedReader_eq (get : UncheckedGet) : checkedReader get = checkedGet get.width get.run := by
  cases get with
  | getU32 => exact checkedGet_map 4 getU32Unchecked Reply.u32
  | getU64 => exact checkedGet_map 8 getU64Unchecked Reply.u64
  | getBytes len => exact checkedGet_map len (getBytesUnchecked len) Reply.bytes

section
variable {b : Buffer}

theorem writer_agrees_iff (valid : Valid b) {put : UncheckedPut} (safe : put.Safety b) :
    put.run b = checkedWriter put b ↔ put.Within b := by
  have bound := b.data.capacity_lt
  have room : b.pos + put.encoding.length ≤ b.data.bytes.length + b.data.spare.length := safe
  rw [checkedWriter_eq, checkedPut, valid.add_pos (by omega)]
  by_cases within : put.Within b
  · have passes : ¬ b.pos + put.encoding.length > b.data.len := not_lt.mpr within
    rw [if_neg passes]
    exact iff_of_true rfl within
  · have fails : b.pos + put.encoding.length > b.data.len := not_le.mp within
    rw [if_pos fails, UncheckedPut.run_eq, putRaw]
    apply iff_of_false _ within
    intro same
    cases written : b.data.write b.pos put.encoding <;> rw [written] at same <;> cases same

theorem reader_agrees (valid : Valid b) {get : UncheckedGet} (safe : get.Safety b) :
    get.run b = checkedReader get b := by
  have bound := b.data.capacity_lt
  have inside := valid.len_le
  have within : b.pos + get.width ≤ b.len := safe
  simp only [ByteVec.len] at inside
  rw [checkedReader_eq, checkedGet, valid.add_pos (by omega), if_neg (not_lt.mpr within)]

/-- One call: the two readings agree where the write ends within the length. -/
theorem run_agrees_iff (valid : Valid b) {op : AnyOp} (safe : Safety b op) :
    run op b = checked op b ↔ Permitted b op := by
  cases op with
  | safe op => exact iff_of_true rfl trivial
  | get get => exact iff_of_true (reader_agrees valid safe) safe
  | put put =>
    rw [Permitted, ← writer_agrees_iff valid safe]
    simp only [run, checked, Call.map]
    constructor
    · intro same
      cases first : put.run b <;> cases second : checkedWriter put b <;>
        simp_all
    · intro same
      rw [same]

theorem run_took {op : AnyOp} {t : Buffer} (left : (run op b).state? = some t) : Took b op t := by
  cases op with
  | safe op => exact left
  | get get => exact left
  | put put => exact (state?_map (fun _ => Reply.unit) put.run b).symm.trans left

theorem answered (valid : Valid b) {op : AnyOp} (permitted : Permitted b op) : Answered b op := by
  cases op with
  | safe op => trivial
  | put put =>
    apply Exists.intro (stored b put.encoding)
    rw [UncheckedPut.run_eq, putRaw_inside valid permitted]
    exact ⟨rfl, stored_valid valid permitted⟩
  | get get =>
    have inside : b.pos + get.width ≤ b.len := permitted
    have kept := advance_valid valid inside
    rw [Answered, reader_agrees valid permitted]
    cases get with
    | getU32 => exact ⟨_, _, map_ok.mpr ⟨_, (getU32_spec valid).trans (if_pos inside), rfl⟩, kept⟩
    | getU64 => exact ⟨_, _, map_ok.mpr ⟨_, (getU64_spec valid).trans (if_pos inside), rfl⟩, kept⟩
    | getBytes len =>
      have nowrap : b.pos + len < 2 ^ 64 := by
        have bound := len_lt b.data
        have within := valid.len_le
        simp only [UncheckedGet.width] at inside
        omega
      exact ⟨_, _, map_ok.mpr ⟨_, (getBytes_spec valid nowrap).trans (if_pos inside), rfl⟩, kept⟩

theorem unsized_step (valid : Valid b) (full : b.data.spare = []) {op : AnyOp}
    (permitted : Permitted b op) (plain : Unsized b op) {t : Buffer} (took : Took b op t) :
    t.data.spare = [] := by
  cases op with
  | put put =>
    rw [Took, UncheckedPut.run_eq, putRaw_inside valid permitted] at took
    cases took
    exact full
  | get get =>
    rw [UncheckedGet.run_inside valid permitted took]
    exact full
  | safe op =>
    have effect := (step_lands valid op t took).2
    have kind : Unsized b (.safe op) := plain
    simp only [Unsized] at kind
    generalize op.change b = change at effect kind
    generalize b.data = before at effect kind full
    generalize t.data = after at effect ⊢
    cases effect with
    | keep => exact full
    | store start src fits => exact full
    | wipe => exact full
    | clone => rfl
    | shrink n => exact ByteVec.spare_shrinkToFit _
    | resize _ n done =>
      have same : n = before.len := kind
      rcases ByteVec.resize_cases done with ⟨-, rfl⟩ | ⟨longer, -, -⟩ | ⟨beyond, -⟩
      · exact List.append_eq_nil_iff.mpr ⟨List.drop_eq_nil_of_le same.ge, full⟩
      · exact absurd same (Nat.ne_of_gt longer)
      · exact absurd same (Nat.ne_of_gt (lt_of_le_of_lt (Nat.le_add_right _ _) beyond))
    | reserve _ n done =>
      have none : n = 0 := kind
      rcases ByteVec.reserve_cases done with ⟨-, rfl⟩ | ⟨short, -⟩
      · exact full
      · omega
    | zeroize =>
      have empty : before.bytes.length = 0 := kind
      apply List.eq_nil_of_length_eq_zero
      rw [ByteVec.zeroize, ByteVec.zeros_length, ByteVec.capacity, empty, full]
      rfl

theorem permitted_of_full (full : b.data.spare = []) {op : AnyOp} (safe : Safety b op) :
    Permitted b op := by
  cases op with
  | safe op => trivial
  | get get => exact safe
  | put put =>
    have room : b.pos + put.encoding.length ≤ b.data.bytes.length + b.data.spare.length := safe
    rw [full] at room
    exact room

end

/-- For every program over the safe and the unchecked operations of a buffer that meets the
documented preconditions, its next call chosen by the answers so far: it is answered as with the
checked operations, state by state, exactly if every unchecked write ends within the vector's
length; then every unchecked call comes back with the cursor in bounds. A vector without spare bytes
that no call grows or cuts makes the preconditions enough. -/
theorem unchecked_alike_iff {start : Buffer} (made : Made start)
    (program : Client AnyOp (Except BufferError Reply)) (safe : Asks run Safety program start) :
    (transcript run program start = transcript checked program start ↔
      Asks run Permitted program start) ∧
    (Asks run Permitted program start → Asks run Answered program start) ∧
    (start.data.spare = [] → Asks run Unsized program start →
      transcript run program start = transcript checked program start) := by
  have keeps : ∀ b op t, Valid b → Permitted b op → (run op b).state? = some t → Valid t :=
    fun b op t valid permitted left => took_valid valid permitted (run_took left)
  have agrees := transcript_eq_iff run (fun b op valid => run_agrees_iff valid) keeps program
    made.valid safe
  apply And.intro agrees
  constructor
  · intro permitted
    apply asks_keeps run _ program made.valid permitted
    exact fun b op valid here => ⟨answered valid here, fun t => keeps b op t valid here⟩
  · intro full unsized
    have both := asks_and run program safe unsized
    apply agrees.mpr
    apply asks_keeps run (I := fun b => Valid b ∧ b.data.spare = []) _ program ⟨made.valid, full⟩ both
    intro b op holds here
    have permitted := permitted_of_full holds.2 here.1
    apply And.intro permitted
    intro t left
    have took := run_took left
    exact ⟨keeps b op t holds.1 permitted left, unsized_step holds.1 holds.2 permitted here.2 took⟩

def fourFull : Buffer := .fromVec fourUsed.data

def rewrites : Client AnyOp (Except BufferError Reply) :=
  .ask (.put (.putU32 0x01020304)) fun _ =>
    .ask (.safe (.setPos 0)) fun _ => .ask (.get .getU32) fun _ => .done

theorem unchecked_alike_full :
    transcript run rewrites fourFull = transcript checked rewrites fourFull ∧
      Asks run Answered rewrites fourFull := by
  have made : Made fourFull := .fromVec _ rfl
  have safe : Asks run Safety rewrites fourFull := ⟨by decide, trivial, by decide, trivial⟩
  have unsized : Asks run Unsized rewrites fourFull := ⟨trivial, trivial, trivial, trivial⟩
  have alike := unchecked_alike_iff made rewrites safe
  have same := alike.2.2 rfl unsized
  exact ⟨same, alike.2.1 (alike.1.mp same)⟩

end Secbuf.UncheckedRuns
