import Secbuf.Connection
import Secbuf.RingCursors
import Secbuf.SafeFaults

/-! Which calls on a connection do not come back. Its parts stay well formed whatever is done to
them, so a call stops short only where the same call on the part alone does, or where a size asked
for is above what a buffer may have. -/

namespace Secbuf.ConnectionFaults
open Calls Splice Storage BufferCore BufferScript Secbuf.Ring CircularBuffer RingFifo RingCursors
open Connection

/-- The calls on a ring that do not come back: a cursor is moved by zero on a ring of size zero, or a
slice that was handed out is stored past its end. -/
def RingFails (r : CircularBuffer) : RingOp → Prop
  | .incrWrite len | .incrRead len => r.size = 0 ∧ len = 0
  | .writePtr len offset src =>
    len ≤ r.size - r.used ∧ r.writePos + len ≤ r.size ∧ len < offset + src.length
  | .writeSlicesMut len first second =>
    len ≤ r.size - r.used ∧
      (min len (r.size - r.writePos) < first.length ∨
        len - min len (r.size - r.writePos) < second.length)
  | _ => False

def BufferFails (b : Buffer) (op : BufferOp) : Prop :=
  SafeFaults.PassesWrapped b op ∨ SafeFaults.StoresOutside b op ∨ SafeFaults.Overgrows b op

def Fails (c : ConnectionBuffers) : ConnOp → Prop
  | .initReadBuf size | .initWriteBuf size => BUF_MAX_SIZE < size
  | .addStreamBuf size => MAX_CBUF_SIZE < size
  | .useReadBuf op => ∃ buf, c.readBuf = some buf ∧ BufferFails buf op
  | .useWriteBuf op => ∃ buf, c.writeBuf = some buf ∧ BufferFails buf op
  | .useStreamBuf i op => ∃ ring, c.streamBufs[i]? = some ring ∧ RingFails ring op
  | _ => False

structure Healthy (c : ConnectionBuffers) : Prop where
  readBuf : ∀ buf, c.readBuf = some buf → Valid buf
  writeBuf : ∀ buf, c.writeBuf = some buf → Valid buf
  streamBufs : ∀ ring ∈ c.streamBufs, Sound ring.size ring

section
variable {size : Nat} {r : CircularBuffer}

def Lies (region : Buffer.Region) (r : CircularBuffer) : Prop :=
  region.length = 0 ∨
    ∃ buffer, r.data = some buffer ∧ region.start + region.length ≤ buffer.length

theorem fillRegion_past {src : List UInt8} {region : Buffer.Region} {offset : Nat}
    (past : region.length < offset + src.length) : fillRegion region offset src r = .fault .panic :=
  if_pos past

theorem fillRegion_within {region : Buffer.Region} (lies : Lies region r) (offset : Nat)
    (src : List UInt8) (within : offset + src.length ≤ region.length) :
    ∃ t, fillRegion region offset src r = .ok () t ∧ ∀ other, Lies other r → Lies other t := by
  unfold fillRegion
  rw [if_neg (by omega)]
  split_ifs with nothing
  · exact ⟨r, rfl, fun _ => id⟩
  · obtain ⟨buffer, here, inside⟩ := lies.resolve_left (by omega)
    have length := length_splice buffer (region.start + offset) src (by omega)
    refine ⟨{ r with data := some (splice buffer (region.start + offset) src) }, ?_, ?_⟩
    · apply attempt_ok
      simp only [here, unwrap, ok_bind]
      rw [copyTo_inside (by omega) (by omega) (by omega), ok_bind]
    · intro other lies
      apply lies.imp_right
      rintro ⟨same, was, fits⟩
      cases here.symm.trans was
      exact ⟨_, rfl, length.symm ▸ fits⟩

theorem fill_fails_iff {src : List UInt8} {region : Buffer.Region} {offset : Nat} (lies : Lies region r) :
    ((fillRegion region offset src >>= fun _ => pure RingReply.unit : RingM RingReply) r).state? = none ↔
      region.length < offset + src.length := by
  by_cases past : region.length < offset + src.length
  · rw [bind_apply, fillRegion_past past]
    exact iff_of_true rfl past
  · obtain ⟨t, stored, -⟩ := fillRegion_within lies offset src (Nat.le_of_not_lt past)
    rw [bind_of_ok stored]
    exact iff_of_false (Option.some_ne_none _) past

theorem fill_both_fails_iff {first second : List UInt8} {head tail : Buffer.Region}
    (front : Lies head r) (back : Lies tail r) :
    ((fillRegion head 0 first >>= fun _ => fillRegion tail 0 second >>= fun _ =>
      pure RingReply.unit : RingM RingReply) r).state? = none ↔
      head.length < first.length ∨ tail.length < second.length := by
  by_cases past : head.length < first.length
  · rw [bind_apply, fillRegion_past (by omega)]
    exact iff_of_true rfl (Or.inl past)
  · obtain ⟨t, stored, kept⟩ := fillRegion_within front 0 first (by omega)
    rw [bind_of_ok stored, fill_fails_iff (kept tail back)]
    omega

theorem lies_allocated (sound : Sound size r) {region : Buffer.Region}
    (inside : region.start + region.length ≤ size) : Lies region r.ensureAllocated := by
  obtain ⟨made, buffer, here⟩ := sound.allocated
  exact Or.inr ⟨buffer, here, (made.length_eq buffer here).symm ▸ inside⟩

/-- A caller of `write_ptr` comes back unless it is handed a slice and stores past its end. -/
theorem writePtr_fails_iff (sound : Sound size r) (len offset : Nat) (src : List UInt8) :
    (Ring.step (.writePtr len offset src) r).state? = none ↔ RingFails r (.writePtr len offset src) := by
  have rule := writePtr_spec sound len
  simp only [RingFails, sound.size_eq, Ring.step]
  split_ifs at rule with full crosses
  · rw [bind_of_err rule]
    exact iff_of_false (Option.some_ne_none _) (by omega)
  · rw [bind_of_err rule]
    exact iff_of_false (Option.some_ne_none _) (by omega)
  · rw [bind_of_ok rule]
    apply (fill_fails_iff (lies_allocated sound (by simp only; omega))).trans
    simp only
    omega

theorem writeSlicesMut_fails_iff (sound : Sound size r) (len : Nat) (first second : List UInt8) :
    (Ring.step (.writeSlicesMut len first second) r).state? = none ↔
      RingFails r (.writeSlicesMut len first second) := by
  have rule := writeSlicesMut_spec sound len
  have cursor := sound.write_le
  have used := sound.used_le
  simp only [RingFails, sound.size_eq, Ring.step]
  split_ifs at rule with nothing full short
  · rw [bind_of_ok rule]
    apply (fill_both_fails_iff (Or.inl rfl) (Or.inl rfl)).trans
    simp only
    omega
  · rw [bind_of_err rule]
    exact iff_of_false (Option.some_ne_none _) (by omega)
  · rw [bind_of_ok rule]
    apply (fill_both_fails_iff (lies_allocated sound (by simp only; omega)) (Or.inl rfl)).trans
    simp only
    omega
  · rw [bind_of_ok rule]
    apply (fill_both_fails_iff (lies_allocated sound (by simp only; omega))
      (lies_allocated sound (by simp only; omega))).trans
    simp only
    omega

theorem ring_fails_iff (sound : Sound size r) (op : RingOp) :
    (Ring.step op r).state? = none ↔ RingFails r op := by
  have rule := panics_iff sound op
  cases op with
  | writePtr len offset src => exact writePtr_fails_iff sound len offset src
  | writeSlicesMut len first second => exact writeSlicesMut_fails_iff sound len first second
  | readPtrs =>
    obtain ⟨slices, shown⟩ := readPtrs_sound sound
    apply iff_of_false _ id
    rw [Ring.step, attempt_ok (by rw [shown, ok_bind])]
    exact Option.some_ne_none _
  | clear | free => exact iff_of_false (Option.some_ne_none _) id
  | write | read | peek | incrWrite | incrRead =>
    simpa [Panics, callOf, RingFails, Ring.step, sound.size_eq] using rule

end

theorem buffer_fails_iff {b : Buffer} (valid : Valid b) (op : BufferOp) :
    (BufferScript.step op b).state? = none ↔ BufferFails b op := by
  have rule := SafeFaults.step_fault_iff valid op
  rw [state?_eq_none, BufferFails]
  simp only [rule, exists_or, exists_and_right, exists_eq, true_and]

theorem settlePresent_fails_iff {σ ε α : Type} {call : Call σ ε α} {field : Option σ} :
    (∀ after, settlePresent call field ≠ .ok after) ↔
      ∃ s, field = some s ∧ (call s).state? = none := by
  cases field with
  | none => exact iff_of_false (fun none => none _ rfl) (by simp)
  | some s =>
    simp only [Option.some.injEq, exists_eq_left']
    cases done : call s <;> simp [settlePresent, settle, done, Bind.bind, Except.bind]

section
variable {c t : ConnectionBuffers}

theorem valid_settled {field after : Option Buffer} (valid : ∀ buf, field = some buf → Valid buf)
    {op : BufferOp} (settled : settlePresent (BufferScript.step op) field = .ok after) :
    ∀ buf, after = some buf → Valid buf := by
  cases field with
  | none =>
    cases settled
    exact nofun
  | some before =>
    obtain ⟨left, stepped, same⟩ := ok_of_bind settled
    cases same
    intro buf there
    cases there
    exact (step_lands (valid before rfl) op left (settle_ok.mp stepped)).1

theorem valid_mapped {field : Option Buffer} {change : Buffer → Buffer}
    (valid : ∀ buf, field = some buf → Valid (change buf)) :
    ∀ buf, field.map change = some buf → Valid buf := by
  intro buf there
  obtain ⟨before, was, rfl⟩ := Option.map_eq_some_iff.mp there
  exact valid before was

theorem sound_mapped {rings : List CircularBuffer} {change : CircularBuffer → CircularBuffer}
    (sound : ∀ ring ∈ rings, Sound (change ring).size (change ring)) :
    ∀ ring ∈ rings.map change, Sound ring.size ring := by
  intro ring member
  obtain ⟨before, was, rfl⟩ := List.mem_map.mp member
  exact sound before was

theorem healthy_start (config : ConnectionBufferConfig) : Healthy (.withConfig config) :=
  ⟨nofun, nofun, nofun⟩

theorem healthy_step (healthy : Healthy c) {op : ConnOp} (taken : Taken c op t) : Healthy t := by
  cases op with
  | initReadBuf size =>
    obtain ⟨buf, made, rfl⟩ := taken_initReadBuf.mp taken
    refine { healthy with readBuf := fun other there => ?_ }
    cases there
    exact (Made.new made).valid
  | initWriteBuf size =>
    obtain ⟨buf, made, rfl⟩ := taken_initWriteBuf.mp taken
    refine { healthy with writeBuf := fun other there => ?_ }
    cases there
    exact (Made.new made).valid
  | addStreamBuf size =>
    obtain ⟨ring, made, rfl⟩ := taken_addStreamBuf.mp taken
    refine { healthy with streamBufs := fun other member => ?_ }
    have sound := sound_new made
    rcases List.mem_append.mp member with old | new
    · exact healthy.streamBufs other old
    · rw [List.mem_singleton.mp new]
      exact sound.size_eq.symm ▸ sound
  | useReadBuf op =>
    obtain ⟨after, settled, rfl⟩ := taken_useReadBuf.mp taken
    exact { healthy with readBuf := valid_settled healthy.readBuf settled }
  | useWriteBuf op =>
    obtain ⟨after, settled, rfl⟩ := taken_useWriteBuf.mp taken
    exact { healthy with writeBuf := valid_settled healthy.writeBuf settled }
  | useStreamBuf i op =>
    rcases taken_useStreamBuf.mp taken with ⟨absent, rfl⟩ | ⟨ring, after, there, stepped, rfl⟩
    · exact healthy
    · refine { healthy with streamBufs := fun other member => ?_ }
      have sound := sound_step (healthy.streamBufs ring (List.mem_of_getElem? there)) stepped
      rcases List.mem_or_eq_of_mem_set member with old | rfl
      · exact healthy.streamBufs other old
      · exact sound.size_eq.symm ▸ sound
  | queuePacket buf =>
    have left := taken_queuePacket.mp taken
    unfold ConnectionBuffers.queuePacket at left
    split_ifs at left <;> (cases left; exact ⟨healthy.readBuf, healthy.writeBuf, healthy.streamBufs⟩)
  | dequeuePacket =>
    have left := taken_dequeuePacket.mp taken
    unfold ConnectionBuffers.dequeuePacket at left
    cases queue : c.packetQueue <;>
      (rw [queue] at left; cases left; exact ⟨healthy.readBuf, healthy.writeBuf, healthy.streamBufs⟩)
  | reset =>
    cases taken_reset.mp taken
    refine ⟨valid_mapped fun buf was => ?_, valid_mapped fun buf was => ?_, sound_mapped fun ring was => ?_⟩
    · exact (step_lands (healthy.readBuf buf was) .reset _ rfl).1
    · exact (step_lands (healthy.writeBuf buf was) .reset _ rfl).1
    · exact sound_clear (healthy.streamBufs ring was)
  | burn =>
    cases taken_burn.mp taken
    unfold ConnectionBuffers.burn
    split_ifs with burned
    · exact healthy
    · refine ⟨valid_mapped fun buf was => ?_, valid_mapped fun buf was => ?_,
        sound_mapped fun ring was => ?_⟩
      · exact (step_lands (healthy.readBuf buf was) .burn _ rfl).1
      · exact (step_lands (healthy.writeBuf buf was) .burn _ rfl).1
      · exact sound_free (healthy.streamBufs ring was)

theorem untaken_iff {β : Type} {Made : β → Prop} {place : β → ConnectionBuffers} :
    (∀ t, ¬ ∃ made, Made made ∧ place made = t) ↔ ∀ made, ¬ Made made :=
  ⟨fun none made ready => none _ ⟨made, ready, rfl⟩, fun none _ ⟨made, ready, _⟩ => none made ready⟩

theorem new_fails_iff {size : Nat} : (∀ buf, ¬ Buffer.new size = .ok buf) ↔ BUF_MAX_SIZE < size := by
  by_cases small : size ≤ BUF_MAX_SIZE
  · obtain ⟨buf, made, -⟩ := Buffer.new_of_le small
    exact iff_of_false (fun none => none buf made) (by omega)
  · refine iff_of_true (fun buf made => ?_) (by omega)
    rw [Buffer.new_too_large small] at made
    cases made

theorem next_none_iff (healthy : Healthy c) (op : ConnOp) : next c op = none ↔ Fails c op := by
  have untaken : next c op = none ↔ ∀ t, ¬ Taken c op t := Option.eq_none_iff_forall_ne_some
  rw [untaken]
  cases op with
  | initReadBuf size =>
    simp only [taken_initReadBuf, Fails, untaken_iff]
    exact new_fails_iff
  | initWriteBuf size =>
    simp only [taken_initWriteBuf, Fails, untaken_iff]
    exact new_fails_iff
  | addStreamBuf size =>
    simp only [taken_addStreamBuf, Fails, untaken_iff, CircularBuffer.new]
    split_ifs with small
    · exact iff_of_false (fun none => none _ rfl) (by omega)
    · exact iff_of_true (fun _ made => by cases made) (by omega)
  | useReadBuf op =>
    simp only [taken_useReadBuf, Fails, untaken_iff]
    apply settlePresent_fails_iff.trans
    apply exists_congr
    exact fun buf => and_congr_right fun there => buffer_fails_iff (healthy.readBuf buf there) op
  | useWriteBuf op =>
    simp only [taken_useWriteBuf, Fails, untaken_iff]
    apply settlePresent_fails_iff.trans
    apply exists_congr
    exact fun buf => and_congr_right fun there => buffer_fails_iff (healthy.writeBuf buf there) op
  | useStreamBuf i op =>
    cases there : c.streamBufs[i]? with
    | none =>
      apply iff_of_false
      · exact fun none => none c (taken_useStreamBuf.mpr (Or.inl ⟨there, rfl⟩))
      · simp [Fails, there]
    | some ring =>
      have rule := ring_fails_iff (healthy.streamBufs ring (List.mem_of_getElem? there)) op
      rw [Option.eq_none_iff_forall_ne_some] at rule
      simp only [taken_useStreamBuf, Fails, there, reduceCtorEq, false_and, false_or, Option.some.injEq,
        exists_and_left, exists_eq_left', untaken_iff]
      exact rule
  | queuePacket buf =>
    apply iff_of_false _ id
    intro none
    simp only [taken_queuePacket, ConnectionBuffers.queuePacket] at none
    split_ifs at none <;> exact none _ rfl
  | dequeuePacket =>
    apply iff_of_false _ id
    intro none
    simp only [taken_dequeuePacket, ConnectionBuffers.dequeuePacket] at none
    cases queue : c.packetQueue <;> (rw [queue] at none; exact none _ rfl)
  | reset => exact iff_of_false (fun none => none _ (taken_reset.mpr rfl)) id
  | burn => exact iff_of_false (fun none => none _ (taken_burn.mpr rfl)) id

theorem healthy_run {config : ConnectionBufferConfig} (run : Reaches Taken (.withConfig config) c) :
    Healthy c :=
  run.keeps (healthy_start config) fun _ _ _ holds taken => healthy_step holds taken

/-- In every state that calls on a connection reach, burned or not: a call does not come back
exactly where `init_*` or `add_stream_buf` is given a size above the maximum, where the same call on
the read or the write buffer alone does not, or where a ring of no size moves a cursor by zero or
is stored to past a slice it handed out. `queue_packet`, `dequeue_packet`, `reset` and `burn`, which
is all that a drop does, always come back. -/
theorem calls_come_back_iff {config : ConnectionBufferConfig}
    (run : Reaches Taken (.withConfig config) c) (op : ConnOp) : next c op = none ↔ Fails c op :=
  next_none_iff (healthy_run run) op

theorem calls_come_back_burned :
    ∃ c, exec next .new [.initReadBuf 4, .addStreamBuf 0, .burn] = some c ∧
      next c (.useReadBuf (.putU64 7)) ≠ none ∧ next c .burn ≠ none ∧
      next c (.useStreamBuf 0 (.incrWrite 0)) = none ∧ next c (.initReadBuf 1000000001) = none := by
  obtain ⟨c, script, rings⟩ : ∃ c, exec next .new [.initReadBuf 4, .addStreamBuf 0, .burn] = some c ∧
      c.streamBufs.map (·.size) = [0] := ⟨_, rfl, rfl⟩
  have back (op : ConnOp) : next c op = none ↔ Fails c op :=
    @calls_come_back_iff c .default (.of_exec script) op
  have large : BUF_MAX_SIZE < 1000000001 := by decide
  refine ⟨c, script, fun stops => ?_, (back _).mp, (back _).mpr ?_, (back _).mpr large⟩
  · obtain ⟨buf, -, fails⟩ := (back _).mp stops
    simp [BufferFails, SafeFaults.PassesWrapped, SafeFaults.StoresOutside, SafeFaults.Overgrows] at fails
  · obtain ⟨ring, rest, same, size, -⟩ := List.map_eq_cons_iff.mp rings
    exact ⟨ring, by rw [same]; rfl, size, rfl⟩

end

end Secbuf.ConnectionFaults
