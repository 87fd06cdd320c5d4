import Secbuf.BufferScript
import Secbuf.WriteHistory

/-! A buffer against the record of its own writes. The record is kept from what is asked for and
what is answered, never from the bytes; the bytes are then what the record says was written
last, and no operation changes one it has not recorded. -/

namespace Secbuf.LastWrite
open Calls Splice BigEndian Storage BufferCore BufferOps BufferScript WriteHistory

def onSuccess {α : Type} (call : BufferM α) (b : Buffer) (event : Event UInt8) :
    List (Event UInt8) :=
  match call b with
  | .ok _ _ => [event]
  | _ => []

/-- `put_string` counts as its `put_u32` of the length, followed by `put_bytes`. -/
def stringEvents (b : Buffer) (s : Slice) : List (Event UInt8) :=
  if s.val.length > MAX_STRING_LEN then []
  else
    match putU32 (UInt32.ofNat s.val.length) b with
    | .ok _ middle =>
      onSuccess (putBytes s.val) middle (.stored middle.pos s.val) ++
        [.stored b.pos (bigEndian 4 (UInt32.ofNat s.val.length).toNat)]
    | _ => []

def events (b : Buffer) : BufferOp → List (Event UInt8)
  | .putByte val => onSuccess (putByte val) b (.stored b.pos [val])
  | .putU32 val => onSuccess (putU32 val) b (.stored b.pos (bigEndian 4 val.toNat))
  | .putU64 val => onSuccess (putU64 val) b (.stored b.pos (bigEndian 8 val.toNat))
  | .putBytes bytes => onSuccess (putBytes bytes.val) b (.stored b.pos bytes.val)
  | .putBytesFast target bytes =>
    onSuccess (putBytesFast target bytes.val) b (.stored b.pos bytes.val)
  | .putString s => stringEvents b s
  | .resize newSize => onSuccess (Buffer.resize newSize) b (.discarded newSize)
  | .shrinkToFit => [.discarded b.len]
  | .burn => [.discarded 0]
  | _ => []

/-- Everything but the operations that store around the cursor, or drop the contents whole: a
slice from `get_write_ptr` is not stored through. -/
def recorded : BufferOp → Bool
  | .zeroize | .clone | .asMutSlice .. => false
  | .getWritePtr _ _ src => src.val.isEmpty
  | _ => true

structure Written where
  buffer : Buffer
  events : List (Event UInt8)

def Written.Stepped (h : Written) (op : BufferOp) (g : Written) : Prop :=
  SteppedWrapping h.buffer op g.buffer ∧ g.events = LastWrite.events h.buffer op ++ h.events

def Written.next (h : Written) (op : BufferOp) : Option Written :=
  (step op h.buffer).state?.map fun t => ⟨t, LastWrite.events h.buffer op ++ h.events⟩

theorem Written.stepped_of_next {h g : Written} {op : BufferOp} (taken : h.next op = some g) :
    h.Stepped op g := by
  obtain ⟨t, stepped, rfl⟩ := Option.map_eq_some_iff.mp taken
  exact ⟨Or.inl stepped, rfl⟩

abbrev Told (events : List (Event UInt8)) (v : ByteVec) : Prop := Records 0 events v.bytes

section
variable {v w : ByteVec} {old : List (Event UInt8)} {b t : Buffer}

def changeEvents : Change → List (Event UInt8)
  | .store start src => [.stored start src]
  | .resize n | .shrink n => [.discarded n]
  | .wipe | .zeroize => [.discarded 0]
  | .keep | .reserve _ | .clone => []

/-- One lemma for every way the storage changes. -/
theorem told_effect {change : Change} (effect : Effect v change w) (told : Told old v) :
    Told (changeEvents change ++ old) w := by
  cases effect with
  | keep => exact told
  | store start src fits =>
    have laid := records_stored told fits
    rw [← ByteVec.bytes_store fits] at laid
    exact laid
  | resize _ n done =>
    have cut := records_grown (records_cut told n) (n - v.len)
    rw [Told, ByteVec.resize_bytes done]
    exact cut
  | reserve _ n done =>
    rw [Told, ByteVec.reserve_bytes done]
    exact told
  | shrink n =>
    rw [Told, ByteVec.bytes_shrinkToFit]
    exact records_cut told n
  | wipe => exact records_wiped _
  | zeroize => exact records_wiped 0
  | clone => exact told

theorem told_growTo {n : Nat} (effect : Effect b.data (growTo b n) w) (told : Told old b.data) :
    Told old w := by
  have after := told_effect effect told
  unfold growTo at after
  split_ifs at after with longer
  · exact records_beyond told (Nat.le_of_lt longer) after
  · exact after

theorem told_put {n : Nat} {src : List UInt8} {put : BufferM Unit}
    (rule : put b = if b.pos + n ≤ b.data.len then .ok () (stored b src)
      else .err .bufferOverflow b)
    (told : Told (changeEvents (storeIf (b.pos + n ≤ b.data.len) b.pos src) ++ old) w) :
    Told (onSuccess put b (.stored b.pos src) ++ old) w := by
  unfold onSuccess
  rw [rule]
  by_cases fits : b.pos + n ≤ b.data.len
  · simp only [storeIf, if_pos fits, changeEvents] at told ⊢
    exact told
  · simp only [storeIf, if_neg fits, changeEvents] at told ⊢
    exact told

theorem stringEvents_eq (valid : Valid b) (s : Slice) :
    stringEvents b s =
      if s.val.length > MAX_STRING_LEN then []
      else if b.pos + 4 + s.val.length ≤ b.data.len then
        [.stored (b.pos + (bigEndian 4 s.val.length).length) s.val,
          .stored b.pos (bigEndian 4 s.val.length)]
      else if b.pos + 4 ≤ b.data.len then [.stored b.pos (bigEndian 4 s.val.length)]
      else [] := by
  unfold stringEvents
  by_cases long : s.val.length > MAX_STRING_LEN
  · rw [if_pos long, if_pos long]
  · have narrow : s.val.length < 2 ^ 32 := by simp only [MAX_STRING_LEN] at long; omega
    rw [if_neg long, if_neg long, putPrefix_spec valid (Nat.le_of_not_lt long),
      UInt32.toNat_ofNat_of_lt' narrow]
    by_cases room : b.pos + 4 ≤ b.data.len
    · simp only [if_pos room, onSuccess, putBody_spec valid (Nat.le_of_not_lt long) room]
      by_cases body : b.pos + 4 + s.val.length ≤ b.data.len
      · rw [if_pos body, if_pos body]
        rfl
      · rw [if_neg body, if_neg body]
        rfl
    · rw [if_neg room, if_neg (by omega), if_neg room]

theorem told_putString (valid : Valid b) (s : Slice)
    (effect : Effect b.data (BufferOp.change b (.putString s)) w) (told : Told old b.data) :
    Told (stringEvents b s ++ old) w := by
  have after := told_effect effect told
  simp only [BufferOp.change, storeIf] at after
  rw [stringEvents_eq valid]
  split_ifs at after ⊢ with long body room
  · exact after
  · -- the two parts lie side by side: the record has two stores where the storage has one
    exact records_congr after (lastStored_adjacent _ _ _)
  · exact after
  · exact after

theorem told_step (valid : Valid b) {op : BufferOp} (listed : recorded op = true)
    (stepped : Stepped b op t) (told : Told old b.data) : Told (events b op ++ old) t.data := by
  have effect := (step_lands valid op t stepped).2
  have after := told_effect effect told
  cases op with
  | setLen len =>
    simp only [BufferOp.change] at effect
    split_ifs at effect
    · exact told_effect effect told
    · exact told_growTo effect told
  | incrLen incr =>
    simp only [BufferOp.change] at effect
    split_ifs at effect
    · exact told_effect effect told
    · exact told_growTo effect told
  | incrWritePos incr =>
    simp only [BufferOp.change] at effect
    split_ifs at effect
    · exact told_effect effect told
    · exact told_growTo effect told
  | putByte val => exact told_put (putByte_spec valid val) after
  | putU32 val => exact told_put (putU32_spec valid val) after
  | putU64 val => exact told_put (putU64_spec valid val) after
  | putBytes bytes => exact told_put (putBytes_spec valid bytes.2) after
  | putBytesFast target bytes => exact told_put (putBytesFast_spec valid target bytes.2) after
  | putString s => exact told_putString valid s effect told
  | resize newSize =>
    simp only [BufferOp.change] at after
    simp only [Stepped, step, state?_map] at stepped
    change Told (onSuccess (Buffer.resize newSize) b (.discarded newSize) ++ old) t.data
    unfold onSuccess
    unfold Buffer.resize at stepped ⊢
    split_ifs at after stepped ⊢ with big
    · exact after
    · cases moved : b.data.resize newSize with
      | error reason => simp [moved] at stepped
      | ok data => exact after
  | getWritePtr len offset src =>
    have nothing : src.val = [] := by simpa [recorded] using listed
    simp only [BufferOp.change, storeIf, nothing] at after
    apply records_congr after
    intro i
    split_ifs
    · change lastStored old i = lastStored (.stored (b.pos + offset) [] :: old) i
      simp only [lastStored, List.length_nil]
      rw [if_neg (by omega)]
    · rfl
  | zeroize => cases listed
  | clone => cases listed
  | asMutSlice => cases listed
  | _ => exact after

/-- Bounds and record, in every state of a run. -/
structure Faithful (h : Written) : Prop where
  valid : Valid h.buffer
  told : Told h.events h.buffer.data

theorem faithful_new {n : Nat} (made : Buffer.new n = .ok b) : Faithful ⟨b, []⟩ := by
  obtain ⟨-, bytes, -, -, -, -⟩ := Buffer.new_cases made
  refine ⟨(blank_new made).valid, ?_⟩
  rw [Told, bytes]
  exact records_blank n

theorem faithful_step {h g : Written} (faithful : Faithful h) {op : BufferOp}
    (listed : recorded op = true) (stepped : h.Stepped op g) : Faithful g := by
  obtain ⟨taken, events⟩ := stepped
  refine ⟨steppedWrapping_valid faithful.valid taken, ?_⟩
  rw [events]
  rcases taken with taken | ⟨n, rfl | rfl, -, moved⟩
  · exact told_step faithful.valid listed taken faithful.told
  · rw [moved]
    exact faithful.told
  · rw [moved]
    exact faithful.told

/-- In every run from a new buffer, each byte the buffer shows is the one most recently stored at
its index and not discarded since, or zero; and an operation changes no byte that is there before
and after it but those it stores or discards. -/
theorem last_write_wins {n : Nat} {start : Buffer} (made : Buffer.new n = .ok start) {h : Written}
    (run : Reaches (Guarded (fun _ op => recorded op = true) Written.Stepped) ⟨start, []⟩ h) :
    (∃ view, h.buffer.asSlice = .ok view ∧ view.length = h.buffer.len ∧
      ∀ i < h.buffer.len, view[i]? = some ((lastStored h.events i).getD 0)) ∧
    ∀ op t, recorded op = true → SteppedWrapping h.buffer op t →
      ∀ i < h.buffer.data.len, i < t.data.len →
        (∀ event ∈ events h.buffer op, ¬ event.Covers i) →
        t.data.bytes[i]? = h.buffer.data.bytes[i]? := by
  have faithful : Faithful h := run.keeps (faithful_new made) fun _ _ _ holds taken =>
    faithful_step holds taken.1 taken.2
  have inside : h.buffer.len ≤ h.buffer.data.bytes.length := faithful.valid.len_le
  refine ⟨⟨_, Buffer.asSlice_of_valid faithful.valid, ?_, ?_⟩, ?_⟩
  · rw [List.length_take, min_eq_left inside]
  · intro i early
    have last := faithful.told i
    rw [List.getElem?_eq_getElem (by omega)] at last
    rw [List.getElem?_take, if_pos early, List.getElem?_eq_getElem (by omega)]
    exact congrArg some last
  · intro op t listed taken i before after untouched
    have next : Faithful ⟨t, events h.buffer op ++ h.events⟩ :=
      faithful_step faithful listed ⟨taken, rfl⟩
    exact records_frame faithful.told next.told before after untouched

theorem last_write_wins_patched :
    ∃ start h, Buffer.new 6 = .ok start ∧ exec Written.next ⟨start, []⟩
        [.putU32 1, .putByte 8, .setPos 3, .putByte 9, .resize 4, .setLen 6] = some h ∧
      h.events = [.discarded 4, .stored 3 [9], .stored 4 [8], .stored 0 [0, 0, 0, 1]] ∧
      ∃ view, h.buffer.asSlice = .ok view ∧
        ∀ i < h.buffer.len, view[i]? = some ((lastStored h.events i).getD 0) := by
  obtain ⟨start, h, made, script, recording⟩ : ∃ start h, Buffer.new 6 = .ok start ∧
      exec Written.next ⟨start, []⟩
        [.putU32 1, .putByte 8, .setPos 3, .putByte 9, .resize 4, .setLen 6] = some h ∧
      h.events = [.discarded 4, .stored 3 [9], .stored 4 [8], .stored 0 [0, 0, 0, 1]] :=
    ⟨_, _, rfl, rfl, rfl⟩
  have run : Reaches (Guarded (fun _ op => recorded op = true) Written.Stepped) ⟨start, []⟩ h :=
    (Reaches.of_script script (.of_all (fun _ => by decide) _)).of_steps fun _ _ _ taken =>
      ⟨taken.1, Written.stepped_of_next taken.2⟩
  obtain ⟨⟨view, shown, -, bytes⟩, -⟩ := last_write_wins made run
  exact ⟨start, h, made, script, recording, view, shown, bytes⟩

end

end Secbuf.LastWrite
