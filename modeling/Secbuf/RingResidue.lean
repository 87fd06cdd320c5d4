import Secbuf.RingStream
import Secbuf.WriteHistory

/-! What is left in a ring's storage. A byte that was read, stepped over or cleared is there until
another one is laid over it or `free` gives the storage back; the record of the stores says which
byte that is. -/

namespace Secbuf.RingResidue
open Calls Splice RingWindow Storage BufferCore Secbuf.Ring CircularBuffer RingFifo RingCursors
  RingStream WriteHistory

/-- `data` laid from `pos` on, latest first: the part past the end goes to the front. -/
def around (size pos : Nat) (data : List UInt8) : List (Event UInt8) :=
  [.stored 0 (data.drop (size - pos)), .stored pos (data.take (size - pos))]

def onSuccess {α : Type} (call : RingM α) (r : CircularBuffer) (stores : α → List (Event UInt8)) :
    List (Event UInt8) :=
  match call r with
  | .ok value _ => stores value
  | _ => []

def events (r : CircularBuffer) : RingOp → List (Event UInt8)
  | .write data => onSuccess (CircularBuffer.write data) r fun _ => around r.size r.writePos data
  | .writePtr len offset src =>
    onSuccess (writePtr len) r fun region => [.stored (region.start + offset) src]
  | .writeSlicesMut len first second =>
    onSuccess (writeSlicesMut len) r fun (head, tail) =>
      [.stored tail.start second, .stored head.start first]
  | .free => [.discarded 0]
  | .read _ | .peek _ | .readPtrs | .incrWrite _ | .incrRead _ | .clear => []

def looks : RingOp → Bool
  | .write _ | .writePtr .. | .writeSlicesMut .. | .free => false
  | .read _ | .peek _ | .readPtrs | .incrWrite _ | .incrRead _ | .clear => true

def copies : RingOp → Bool
  | .write _ | .read _ | .peek _ | .readPtrs | .incrRead _ => true
  | .writePtr .. | .writeSlicesMut .. | .incrWrite _ | .clear | .free => false

structure Recorded where
  ring : CircularBuffer
  events : List (Event UInt8)

def Recorded.next (h : Recorded) (op : RingOp) : Option Recorded :=
  (Ring.step op h.ring).state?.map fun t => ⟨t, RingResidue.events h.ring op ++ h.events⟩

/-- A ring without storage holds nothing yet, and an index no store has reached is zero. -/
abbrev Told (events : List (Event UInt8)) (r : CircularBuffer) : Prop :=
  Records 0 events (r.data.getD [])

section
variable {old : List (Event UInt8)} {buffer : List UInt8}

theorem lastStored_nothing (start i : Nat) :
    lastStored (.stored start [] :: old) i = lastStored old i := by
  rw [lastStored, if_neg (by simp only [List.length_nil]; omega)]

theorem records_nothing (records : Records 0 old buffer) (start : Nat) :
    Records 0 (.stored start [] :: old) buffer :=
  records_congr records fun i => lastStored_nothing start i

theorem records_around (records : Records 0 old buffer) {pos : Nat} {data : List UInt8}
    (pos_le : pos ≤ buffer.length) (fits : data.length ≤ buffer.length) :
    Records 0 (around buffer.length pos data ++ old) (overlay buffer pos data) := by
  unfold around overlay
  split_ifs with short
  · rw [List.take_of_length_le short, List.drop_eq_nil_of_le short]
    exact records_nothing (records_stored records (by omega)) 0
  · have first : pos + (data.take (buffer.length - pos)).length ≤ buffer.length := by
      simp only [List.length_take]
      omega
    have kept := length_splice buffer pos _ first
    apply records_stored (records_stored records first)
    simp only [kept, List.length_drop]
    omega

end

section
variable {size : Nat} {old : List (Event UInt8)} {r t : CircularBuffer}

theorem told_allocated (told : Told old r) : Told old r.ensureAllocated := by
  unfold ensureAllocated
  cases data : r.data with
  | some buffer => exact told
  | none =>
    rw [Told, data] at told
    exact records_grown told r.size

theorem fillRegion_laid {region : Buffer.Region} {offset : Nat} {src : List UInt8}
    (nonempty : src ≠ []) (done : (fillRegion region offset src r).state? = some t) :
    ∃ buffer, r.data = some buffer ∧ region.start + offset + src.length ≤ buffer.length ∧
      t = { r with data := some (splice buffer (region.start + offset) src) } := by
  have length : src.length ≠ 0 := fun zero => nonempty (List.eq_nil_of_length_eq_zero zero)
  unfold fillRegion at done
  rw [if_neg length] at done
  split_ifs at done
  · cases done
  · obtain ⟨_, done⟩ := attempt_state?.mp done
    obtain ⟨buffer, here, done⟩ := ok_of_bind done
    obtain ⟨after, copied, done⟩ := ok_of_bind done
    cases done
    unfold copyTo at copied
    split_ifs at copied with inside
    cases copied
    cases data : r.data with
    | none =>
      rw [data] at here
      cases here
    | some held =>
      rw [data] at here
      cases here
      exact ⟨_, rfl, inside.2.1, rfl⟩

theorem fillRegion_nothing {region : Buffer.Region} {offset : Nat}
    (done : (fillRegion region offset [] r).state? = some t) : t = r := by
  unfold fillRegion at done
  split_ifs at done with exceeds some
  · cases done
  · cases done
    rfl
  · exact absurd List.length_nil some

theorem told_fill {region : Buffer.Region} {offset : Nat} {src : List UInt8} (told : Told old r)
    (done : (fillRegion region offset src r).state? = some t) :
    Told (.stored (region.start + offset) src :: old) t := by
  by_cases nothing : src = []
  · rw [nothing] at done ⊢
    rw [fillRegion_nothing done]
    exact records_nothing told _
  · obtain ⟨buffer, here, inside, rfl⟩ := fillRegion_laid nothing done
    rw [Told, here] at told
    exact records_stored told inside

theorem told_write (sound : Sound size r) (told : Told old r) {data : List UInt8}
    (done : (CircularBuffer.write data r).state? = some t) :
    Told (events r (.write data) ++ old) t := by
  have cursor := sound.write_le
  simp only [events, onSuccess]
  by_cases empty : data.length = 0
  · have nothing := List.eq_nil_of_length_eq_zero empty
    have still : CircularBuffer.write data r = .ok 0 r := if_pos empty
    rw [still] at done ⊢
    cases done
    simp only [nothing, around, List.take_nil, List.drop_nil]
    exact records_nothing (records_nothing told _) _
  · by_cases fits : data.length ≤ size - r.used
    · obtain ⟨made, buffer, here⟩ := sound.allocated
      have width := made.length_eq buffer here
      have blank := told_allocated told
      rw [Told, here, Option.getD_some] at blank
      rw [write_fits sound here (Nat.pos_of_ne_zero empty) fits] at done ⊢
      cases done
      have laid : Records 0 (around buffer.length r.writePos data ++ old)
          (overlay buffer r.writePos data) := records_around blank (by omega) (by omega)
      rw [width, ← sound.size_eq] at laid
      exact laid
    · rw [write_exceeds sound (by omega)] at done ⊢
      cases done
      exact told

theorem told_writePtr (sound : Sound size r) (told : Told old r) {len offset : Nat}
    {src : List UInt8} (done : (Ring.step (.writePtr len offset src) r).state? = some t) :
    Told (events r (.writePtr len offset src) ++ old) t := by
  simp only [events, onSuccess]
  rcases bind_state? done with ⟨error, refused⟩ | ⟨region, middle, handed, later⟩
  · have spec := writePtr_spec sound len
    rw [refused] at spec ⊢
    split_ifs at spec
    · cases spec
      exact told
    · cases spec
      exact told
  · obtain ⟨-, rfl⟩ := RingFrame.writePtr_apart sound handed
    rw [handed]
    rcases bind_state? later with ⟨error, failed⟩ | ⟨_, after, filled, last⟩
    · exact absurd failed (fillRegion_total region offset src)
    · cases last
      exact told_fill (told_allocated told) (by rw [filled, state?_ok])

theorem told_writeSlicesMut (sound : Sound size r) (told : Told old r) {len : Nat}
    {first second : List UInt8}
    (done : (Ring.step (.writeSlicesMut len first second) r).state? = some t) :
    Told (events r (.writeSlicesMut len first second) ++ old) t := by
  simp only [events, onSuccess]
  rcases bind_state? done with ⟨error, refused⟩ | ⟨⟨head, tail⟩, middle, handed, later⟩
  · have spec := writeSlicesMut_spec sound len
    rw [refused] at spec ⊢
    split_ifs at spec
    cases spec
    exact told
  · have begun : Told old middle := by
      rcases (RingFrame.writeSlicesMut_apart sound handed).2 with rfl | rfl
      · exact told
      · exact told_allocated told
    rw [handed]
    rcases bind_state? later with ⟨error, failed⟩ | ⟨_, between, filled, later⟩
    · exact absurd failed (fillRegion_total head 0 first)
    · rcases bind_state? later with ⟨error, failed⟩ | ⟨_, after, filled', last⟩
      · exact absurd failed (fillRegion_total tail 0 second)
      · cases last
        have front := told_fill begun (by rw [filled, state?_ok])
        exact told_fill front (by rw [filled', state?_ok])

theorem data_same (sound : Sound size r) {op : RingOp} (stepped : Stepped r op t)
    (looking : looks op = true) :
    t.data = r.data ∧ (copies op = true → t.writePos = r.writePos) := by
  cases op with
  | read output =>
    simp only [Stepped, Ring.step, state?_map] at stepped
    unfold CircularBuffer.read at stepped
    split at stepped
    · cases stepped
      exact ⟨rfl, fun _ => rfl⟩
    · cases stepped
      exact ⟨rfl, fun _ => rfl⟩
    · obtain ⟨_, done⟩ := attempt_state?.mp stepped
      obtain ⟨_, -, done⟩ := ok_of_bind done
      obtain ⟨_, -, done⟩ := ok_of_bind done
      obtain ⟨_, -, done⟩ := ok_of_bind done
      cases done
      exact ⟨rfl, fun _ => rfl⟩
  | peek output =>
    simp only [Stepped, Ring.step, state?_map, peek_sound sound, Option.some.injEq] at stepped
    rw [stepped]
    exact ⟨rfl, fun _ => rfl⟩
  | readPtrs =>
    simp only [Stepped, Ring.step] at stepped
    obtain ⟨_, done⟩ := attempt_state?.mp stepped
    obtain ⟨_, -, done⟩ := ok_of_bind done
    cases done
    exact ⟨rfl, fun _ => rfl⟩
  | incrWrite len =>
    simp only [Stepped, Ring.step, state?_map] at stepped
    rcases incrWrite_cases sound stepped with rfl | ⟨-, -, rfl⟩
    · exact ⟨rfl, fun _ => rfl⟩
    · exact ⟨rfl, fun copying => Bool.noConfusion copying⟩
  | incrRead len =>
    simp only [Stepped, Ring.step, state?_map] at stepped
    rcases incrRead_cases sound stepped with rfl | ⟨-, -, rfl⟩
    · exact ⟨rfl, fun _ => rfl⟩
    · exact ⟨rfl, fun _ => rfl⟩
  | clear =>
    cases stepped
    exact ⟨rfl, fun copying => Bool.noConfusion copying⟩
  | write | writePtr | writeSlicesMut | free => cases looking

theorem told_step (sound : Sound size r) (told : Told old r) {op : RingOp}
    (stepped : Stepped r op t) : Told (events r op ++ old) t := by
  have unchanged (looking : looks op = true) : Told old t := by
    rw [Told, (data_same sound stepped looking).1]
    exact told
  cases op with
  | write data =>
    simp only [Stepped, Ring.step, state?_map] at stepped
    exact told_write sound told stepped
  | writePtr len offset src => exact told_writePtr sound told stepped
  | writeSlicesMut len first second => exact told_writeSlicesMut sound told stepped
  | free =>
    cases stepped
    exact records_wiped 0
  | _ => exact unchanged rfl

theorem stored_step (sound : Sound size r) {op : RingOp} (keeps : op ≠ .free)
    (stored : r.data.isSome) (stepped : Stepped r op t) : t.data.isSome := by
  have fills (region : Buffer.Region) (offset : Nat) (src : List UInt8) :
      (fillRegion region offset src).Keeps fun r => Sound size r ∧ r.data.isSome :=
    fun r t holds done => ⟨fillRegion_sound region offset src r t holds.1 done,
      stored_fillRegion region offset src r t holds.2 done⟩
  cases op with
  | write data =>
    simp only [Stepped, Ring.step, state?_map] at stepped
    rcases RingFrame.stored_write sound stepped with rfl | there
    · exact stored
    · exact there
  | writePtr len offset src =>
    apply (keeps_writePtr _ fills offset src r t ⟨sound, stored⟩ stepped).2
    intro r t holds done
    rw [writePtr_spec holds.1] at done
    split_ifs at done
    · cases done
      exact holds
    · cases done
      exact holds
    · cases done
      exact ⟨holds.1.allocated.1, ensureAllocated_stored r⟩
  | writeSlicesMut len first second =>
    apply (keeps_writeSlicesMut _ fills first second r t ⟨sound, stored⟩ stepped).2
    intro r t holds done
    rw [writeSlicesMut_spec holds.1] at done
    split_ifs at done
    · cases done
      exact holds
    · cases done
      exact holds
    · cases done
      exact ⟨holds.1.allocated.1, ensureAllocated_stored r⟩
    · cases done
      exact ⟨holds.1.allocated.1, ensureAllocated_stored r⟩
  | free => exact absurd rfl keeps
  | _ =>
    rw [(data_same sound stepped rfl).1]
    exact stored

end

section
variable {size i : Nat} {start : CircularBuffer} {h g : Recorded} {op : RingOp}

def Taken (h : Recorded) (op : RingOp) (g : Recorded) : Prop := h.next op = some g

/-- None of the operation's stores and discards decides index `i`. -/
def Passes (i : Nat) (h : Recorded) (op : RingOp) : Prop :=
  ∀ event ∈ RingResidue.events h.ring op, ¬ event.Covers i

structure Faithful (size : Nat) (h : Recorded) : Prop where
  sound : Sound size h.ring
  told : Told h.events h.ring

theorem faithful_made (made : Made size start) : Faithful size ⟨start, []⟩ := by
  have fresh := made.new_eq
  refine ⟨sound_new fresh, ?_⟩
  unfold CircularBuffer.new at fresh
  split_ifs at fresh
  cases fresh
  exact records_blank 0

theorem faithful_step (faithful : Faithful size h) (taken : Taken h op g) : Faithful size g := by
  obtain ⟨t, stepped, rfl⟩ := Option.map_eq_some_iff.mp taken
  exact ⟨sound_step faithful.sound stepped, told_step faithful.sound faithful.told stepped⟩

theorem Faithful.byte (faithful : Faithful size h) {buffer : List UInt8}
    (here : h.ring.data = some buffer) (inside : i < size) :
    buffer[i]? = some ((lastStored h.events i).getD 0) := by
  have width := faithful.sound.length_eq buffer here
  have last := faithful.told i
  rw [here, Option.getD_some, List.getElem?_eq_getElem (by omega)] at last
  rw [List.getElem?_eq_getElem (by omega)]
  exact congrArg some last

theorem passes_step (faithful : Faithful size h) (stored : h.ring.data.isSome)
    (passes : Passes i h op) (taken : Taken h op g) :
    g.ring.data.isSome ∧ lastStored g.events i = lastStored h.events i := by
  have keeps : op ≠ .free := by
    intro frees
    rw [frees] at passes
    exact passes (.discarded 0) List.mem_cons_self (Nat.zero_le i)
  obtain ⟨t, stepped, rfl⟩ := Option.map_eq_some_iff.mp taken
  exact ⟨stored_step faithful.sound keeps stored stepped, lastStored_append passes⟩

/-- In every run of any calls on a ring: its storage, once it is there, holds at each index the byte
stored there last since it was made, or zero. And a byte stays through every further run in which it
is not stored over and the storage not freed, whoever reads it, steps over it or clears the ring. -/
theorem storage_remembers (made : Made size start) (run : Reaches Taken ⟨start, []⟩ h) :
    (∀ buffer, h.ring.data = some buffer →
      buffer.length = size ∧ ∀ i < size, buffer[i]? = some ((lastStored h.events i).getD 0)) ∧
    ∀ buffer, h.ring.data = some buffer → ∀ i < size, ∀ g, Reaches (Guarded (Passes i) Taken) h g →
      ∃ after, g.ring.data = some after ∧ after[i]? = buffer[i]? := by
  have faithful : Faithful size h := run.keeps (faithful_made made) fun _ _ _ holds taken =>
    faithful_step holds taken
  constructor
  · intro buffer here
    exact ⟨faithful.sound.length_eq buffer here, fun i inside => faithful.byte here inside⟩
  · intro buffer here i inside g later
    have begun : h.ring.data.isSome := by rw [here]; rfl
    obtain ⟨holds, stored, same⟩ := later.keeps
      (I := fun g => Faithful size g ∧ g.ring.data.isSome ∧ lastStored g.events i = lastStored h.events i)
      ⟨faithful, begun, rfl⟩ (by
        intro s op t before taken
        obtain ⟨holds, stored, same⟩ := before
        obtain ⟨kept, still⟩ := passes_step holds stored taken.1 taken.2
        exact ⟨faithful_step holds taken.2, kept, still.trans same⟩)
    obtain ⟨after, there⟩ := Option.isSome_iff_exists.mp stored
    refine ⟨after, there, ?_⟩
    rw [holds.byte there inside, faithful.byte here inside, same]

theorem passes_of_looks (i : Nat) (h : Recorded) (looking : looks op = true) : Passes i h op := by
  intro event member
  cases op with
  | write | writePtr | writeSlicesMut | free => cases looking
  | _ => cases member

theorem storage_remembers_four :
    ∃ start h g after, CircularBuffer.new 4 = .ok start ∧
      exec Recorded.next ⟨start, []⟩ [.write [1, 2, 3], .incrRead 2, .writeSlicesMut 2 [4] [5]] =
        some h ∧
      h.ring.data = some [5, 2, 3, 4] ∧ (lastStored h.events 0).getD 0 = 5 ∧
      exec Recorded.next h [.incrWrite 2, .read [0], .clear, .peek [0]] = some g ∧
      g.ring.used = 0 ∧ g.ring.data = some after ∧ after[1]? = some 2 := by
  obtain ⟨start, h, g, made, script, bytes, later, cleared⟩ :
      ∃ start h g, CircularBuffer.new 4 = .ok start ∧
        exec Recorded.next ⟨start, []⟩ [.write [1, 2, 3], .incrRead 2, .writeSlicesMut 2 [4] [5]] =
          some h ∧
        h.ring.data = some [5, 2, 3, 4] ∧
        exec Recorded.next h [.incrWrite 2, .read [0], .clear, .peek [0]] = some g ∧
        g.ring.used = 0 := ⟨_, _, _, rfl, rfl, rfl, rfl, rfl⟩
  obtain ⟨told, stays⟩ := storage_remembers (.new made) (.of_exec script)
  have looked : Reaches (Guarded (Passes 1) Taken) h g := by
    apply Reaches.of_script later
    apply Meets.of_all
    intro s op member
    apply passes_of_looks
    revert op
    decide
  obtain ⟨after, there, kept⟩ := stays _ bytes 1 (by decide) g looked
  have first := (told _ bytes).2 0 (by decide)
  exact ⟨start, h, g, after, made, script, bytes, (Option.some.inj first).symm, later, cleared,
    there, kept⟩

end

/-! Where a stream goes. The write cursor is the number of bytes that came in, around the end. -/

section
variable {size : Nat} {sent : List UInt8} {r t : CircularBuffer}

/-- `sent` came in since the cursors stood at the front, and of it the storage holds as much of the
end as there is room for. -/
structure Trail (size : Nat) (sent : List UInt8) (r : CircularBuffer) : Prop where
  sound : Sound size r
  stored : 0 < sent.length → r.data.isSome
  cursor : r.writePos = sent.length % size
  recent : ∀ buffer, r.data = some buffer → ∀ count ≤ size, count ≤ sent.length →
    window buffer (sent.length - count) count = sent.drop (sent.length - count)

theorem trail_made {start : CircularBuffer} (made : Made size start) : Trail size [] start := by
  have fresh := made.new_eq
  refine ⟨sound_new fresh, fun some => absurd some (Nat.lt_irrefl 0), ?_, ?_⟩
  · rw [List.length_nil, Nat.zero_mod]
    unfold CircularBuffer.new at fresh
    split_ifs at fresh
    cases fresh
    rfl
  · intro buffer _ count _ none
    rw [Nat.le_zero.mp none, window_zero]
    rfl

theorem Trail.allocated (trail : Trail size sent r) : Trail size sent r.ensureAllocated := by
  refine ⟨trail.sound.allocated.1, fun _ => ensureAllocated_stored r, ?_, ?_⟩
  · rw [ensureAllocated_writePos]
    exact trail.cursor
  · intro buffer here count le counted
    cases data : r.data with
    | some held =>
      rw [ensureAllocated, data] at here
      exact trail.recent buffer (data.trans (data.symm.trans here)) count le counted
    | none =>
      have nothing : sent.length = 0 := by
        by_contra some
        have stored := trail.stored (Nat.pos_of_ne_zero some)
        rw [data] at stored
        cases stored
      rw [show count = 0 by omega, window_zero, Nat.sub_zero, List.drop_length]

theorem length_laid (sound : Sound size r) {buffer data : List UInt8} (here : r.data = some buffer)
    (fits : data.length ≤ size) : (overlay buffer r.writePos data).length = buffer.length := by
  have width := sound.length_eq buffer here
  have cursor := sound.write_le
  exact length_overlay buffer r.writePos data (by omega) (by omega)

theorem recent_overlay (trail : Trail size sent r) {buffer data : List UInt8}
    (here : r.data = some buffer) (positive : 0 < size) {old : Nat} (old_le : old ≤ sent.length)
    (fits : old + data.length ≤ size) :
    window (overlay buffer r.writePos data) (sent.length - old) (old + data.length) =
      (sent ++ data).drop (sent.length - old) := by
  have width := trail.sound.length_eq buffer here
  have begin_lt : (sent.length - old) % buffer.length < buffer.length := Nat.mod_lt _ (by omega)
  have place : ((sent.length - old) % buffer.length + old) % buffer.length = r.writePos := by
    rw [Nat.mod_add_mod, Nat.sub_add_cancel old_le, width, trail.cursor]
  have kept := length_laid trail.sound here (show data.length ≤ size by omega)
  have joined := window_overlay buffer ((sent.length - old) % buffer.length) old data begin_lt
    (by omega)
  calc
    window (overlay buffer r.writePos data) (sent.length - old) (old + data.length)
      = window (overlay buffer r.writePos data) ((sent.length - old) % buffer.length)
          (old + data.length) := by rw [← kept, window_mod]
    _ = window buffer ((sent.length - old) % buffer.length) old ++ data := by rw [← place, joined]
    _ = sent.drop (sent.length - old) ++ data := by
        rw [window_mod, trail.recent buffer here old (by omega) old_le]
    _ = (sent ++ data).drop (sent.length - old) := by
        rw [List.drop_append_of_le_length (Nat.sub_le _ _)]

theorem trail_write (trail : Trail size sent r) {data : List UInt8} (nonempty : 0 < data.length)
    (fits : data.length ≤ size - r.used) (done : (CircularBuffer.write data r).state? = some t) :
    Trail size (sent ++ data) t := by
  have made := trail.allocated
  obtain ⟨buffer, here⟩ := Option.isSome_iff_exists.mp (ensureAllocated_stored r)
  have width := made.sound.length_eq buffer here
  obtain ⟨u, stepped, sound⟩ := write_sound trail.sound data
  rw [done] at stepped
  cases stepped
  rw [write_fits trail.sound here nonempty fits] at done
  cases done
  refine ⟨sound, fun _ => rfl, ?_, ?_⟩
  · simp only [List.length_append]
    rw [trail.cursor, Nat.mod_add_mod]
  · intro after same count le counted
    cases same
    rw [List.length_append] at counted ⊢
    have joined (old : Nat) (old_le : old ≤ sent.length) (room : old + data.length ≤ size) :
        window (overlay buffer r.writePos data) (sent.length - old) (old + data.length) =
          (sent ++ data).drop (sent.length - old) := by
      have laid := recent_overlay made here (by omega) old_le room
      rw [ensureAllocated_writePos] at laid
      exact laid
    by_cases short : data.length ≤ count
    · have whole := joined (count - data.length) (by omega) (by omega)
      rw [Nat.sub_add_cancel short] at whole
      rw [show sent.length + data.length - count = sent.length - (count - data.length) by omega]
      exact whole
    · -- fewer than were laid just now: the end of those
      have laid := joined 0 (Nat.zero_le _) (by omega)
      rw [Nat.zero_add, Nat.sub_zero] at laid
      have kept := length_laid made.sound here (show data.length ≤ size by omega)
      rw [ensureAllocated_writePos] at kept
      have cut := drop_window (overlay buffer r.writePos data) sent.length data.length
        (data.length - count) (by omega)
      rw [laid, List.drop_drop, Nat.sub_sub_self (by omega)] at cut
      rw [show sent.length + data.length - count = sent.length + (data.length - count) by omega]
      exact cut.symm

end

section
variable {size : Nat} {sent : List UInt8} {start : CircularBuffer} {s t : Stage} {op : RingOp}

theorem next_stepped (taken : RingStream.next s op = some t) : Stepped s.ring op t.ring := by
  unfold RingStream.next at taken
  unfold Stepped
  cases done : Ring.step op s.ring with
  | ok reply ring =>
    rw [done] at taken
    cases taken
    rfl
  | err error ring =>
    rw [done] at taken
    cases taken
    rfl
  | fault reason =>
    rw [done] at taken
    cases taken

theorem trail_step (trail : Trail size sent s.ring) (copying : copies op = true)
    (taken : RingStream.next s op = some t) : Trail size (sent ++ accepted s op) t.ring := by
  have stepped := next_stepped taken
  have unchanged (looking : looks op = true) (silent : accepted s op = []) :
      Trail size (sent ++ accepted s op) t.ring := by
    obtain ⟨data, cursor⟩ := data_same trail.sound stepped looking
    rw [silent, List.append_nil]
    refine ⟨sound_step trail.sound stepped, ?_, (cursor copying).trans trail.cursor, ?_⟩
    · rw [data]
      exact trail.stored
    · rw [data]
      exact trail.recent
  cases op with
  | write data =>
    simp only [Stepped, Ring.step, state?_map] at stepped
    by_cases empty : data.length = 0
    · have still : CircularBuffer.write data s.ring = .ok 0 s.ring := if_pos empty
      have joined : accepted s (.write data) = [] := by
        rw [accepted, Ring.step, Call.map, still]
        exact List.eq_nil_of_length_eq_zero empty
      rw [still, state?_ok] at stepped
      rw [joined, List.append_nil, ← Option.some.inj stepped]
      exact trail
    · by_cases fits : data.length ≤ size - s.ring.used
      · obtain ⟨-, buffer, here⟩ := trail.sound.allocated
        have joined : accepted s (.write data) = data := by
          rw [accepted, Ring.step, Call.map,
            write_fits trail.sound here (Nat.pos_of_ne_zero empty) fits]
          rfl
        rw [joined]
        exact trail_write trail (Nat.pos_of_ne_zero empty) fits stepped
      · have refused := write_exceeds trail.sound (Nat.lt_of_not_le fits)
        have joined : accepted s (.write data) = [] := by
          rw [accepted, Ring.step, Call.map, refused]
          rfl
        rw [refused, state?_err] at stepped
        rw [joined, List.append_nil, ← Option.some.inj stepped]
        exact trail
  | writePtr | writeSlicesMut | incrWrite | clear | free => cases copying
  | _ => exact unchanged rfl rfl

/-- On a ring that is only written to and read by copying calls: of all the bytes that ever came in,
each of the last `size` is still in the storage, at its place in the stream around the end of the
ring, however many of them have been read. -/
theorem consumed_bytes_stay (made : Made size start) {ops : List RingOp}
    (copying : ∀ op ∈ ops, copies op = true)
    (script : exec RingStream.next ⟨start, none⟩ ops = some s) {j : Nat}
    (sent_there : j < (gathered RingStream.next accepted ⟨start, none⟩ ops).length)
    (late : (gathered RingStream.next accepted ⟨start, none⟩ ops).length ≤ j + size) :
    ∃ buffer, s.ring.data = some buffer ∧
      buffer[j % size]? = (gathered RingStream.next accepted ⟨start, none⟩ ops)[j]? := by
  have one (n m : List UInt8) (s : Stage) (op : RingOp) (t : Stage) (trail : Trail size n s.ring)
      (allowed : copies op = true) (taken : RingStream.next s op = some t) :
      Trail size (n ++ accepted s op) t.ring := trail_step trail allowed taken
  have trail : Trail size ([] ++ gathered RingStream.next accepted ⟨start, none⟩ ops) s.ring :=
    exec_gathers (m := []) (v := accepted) (I := fun n _ s => Trail size n s.ring) one
      (trail_made made) script (Meets.of_all (fun _ => copying) _)
  rw [List.nil_append] at trail
  generalize gathered RingStream.next accepted ⟨start, none⟩ ops = sent at *
  obtain ⟨buffer, here⟩ := Option.isSome_iff_exists.mp (trail.stored (by omega))
  have width := trail.sound.length_eq buffer here
  have last := congrArg (·[0]?) (trail.recent buffer here (sent.length - j) (by omega) (by omega))
  have place : sent.length - (sent.length - j) = j := by omega
  simp only [place, window, List.getElem?_take, List.getElem?_drop, Nat.add_zero] at last
  rw [if_pos (by omega), List.getElem?_rotate (by omega), Nat.zero_add, width] at last
  exact ⟨buffer, here, last⟩

theorem consumed_bytes_stay_four :
    ∃ start s buffer, CircularBuffer.new 4 = .ok start ∧
      exec RingStream.next ⟨start, none⟩ [.write [1, 2, 3], .read [0, 0, 0], .write [4, 5],
        .read [0, 0]] = some s ∧
      s.ring.used = 0 ∧ s.ring.data = some buffer ∧ buffer[1]? = some 2 := by
  obtain ⟨start, s, made, script, drained⟩ : ∃ start s, CircularBuffer.new 4 = .ok start ∧
      exec RingStream.next ⟨start, none⟩ [.write [1, 2, 3], .read [0, 0, 0], .write [4, 5],
        .read [0, 0]] = some s ∧ s.ring.used = 0 := ⟨_, _, rfl, rfl, rfl⟩
  cases made
  have fresh : Made 4 ⟨none, 4, 0, 0, 0, true⟩ := .new rfl
  obtain ⟨buffer, there, kept⟩ := consumed_bytes_stay fresh (by decide) script (j := 1) (by decide)
    (by decide)
  exact ⟨_, s, buffer, rfl, script, drained, there, kept⟩

end

end Secbuf.RingResidue
