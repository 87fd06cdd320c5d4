import Secbuf.RingDrain

/-! What the holder of handed-out slices does to a ring before the write cursor is moved. It may
store any bytes into them, any number of times, and none of it reaches what is still to be
read: the slices lie behind the write cursor, short of a full turn. -/

namespace Secbuf.RingFrame
open Calls Splice RingWindow Storage BufferCore Secbuf.Ring CircularBuffer RingFifo RingCursors
  RingDrain

def Inside (region : Buffer.Region) (index : Nat) : Prop :=
  region.start ≤ index ∧ index < region.start + region.length

/-- None of the `used` places from the read cursor on, taken around the end, is in a region. -/
def Apart (r : CircularBuffer) (regions : List Buffer.Region) : Prop :=
  ∀ k < r.used, ∀ region ∈ regions, ¬ Inside region ((r.readPos + k) % r.size)

structure Store where
  region : Buffer.Region
  offset : Nat
  src : List UInt8

def StoredThrough (regions : List Buffer.Region) : CircularBuffer → CircularBuffer → Prop :=
  Reaches fun r (store : Store) t => store.region ∈ regions ∧
    fillRegion store.region store.offset store.src r = .ok () t

/-- Whoever asks the second ring is told what the first would have said. -/
structure SameToReaders (r t : CircularBuffer) : Prop where
  used : t.used = r.used
  available : t.available = r.available
  readPos : t.readPos = r.readPos
  writePos : t.writePos = r.writePos
  readPtrs : t.readPtrs = r.readPtrs
  peek : ∀ output, ∃ answer, peek output r = .ok answer r ∧ peek output t = .ok answer t
  read : ∀ output, ∃ answer r' t',
    CircularBuffer.read output r = .ok answer r' ∧ CircularBuffer.read output t = .ok answer t'

section
variable {size : Nat} {q : List UInt8} {r t : CircularBuffer}

theorem sameToReaders (before : Represents size q r) (after : Represents size q t)
    (start : t.readPos = r.readPos) : SameToReaders r t := by
  have used : t.used = r.used := after.used_eq.trans before.used_eq.symm
  refine ⟨used, ?_, start, ?_, ?_, fun output => ?_, fun output => ?_⟩
  · rw [after.available, before.available]
  · rw [after.write_eq, before.write_eq, start, used]
  · rw [readPtrs_eq after, readPtrs_eq before, start]
  · exact ⟨_, peek_spec before output, peek_spec after output⟩
  · obtain ⟨r', first, -⟩ := read_spec before output
    obtain ⟨t', second, -⟩ := read_spec after output
    exact ⟨_, r', t', first, second⟩

theorem fillRegion_represents (rep : Represents size q r) {region : Buffer.Region} {offset : Nat}
    {src : List UInt8} (beside : ∀ k < r.used, ¬ Inside region ((r.readPos + k) % size))
    (stored : fillRegion region offset src r = .ok () t) :
    Represents size q t ∧ t.readPos = r.readPos := by
  have done : (fillRegion region offset src r).state? = some t := by rw [stored, state?_ok]
  rcases fillRegion_splices done with rfl | ⟨buffer, here, room, inside, rfl⟩
  · exact ⟨rep, rfl⟩
  · have width := rep.length_eq buffer here
    have bound := rep.used_le
    have kept := length_splice buffer (region.start + offset) src inside
    have same : window (splice buffer (region.start + offset) src) r.readPos r.used =
        window buffer r.readPos r.used := by
      apply window_splice buffer r.readPos r.used (region.start + offset) src (by omega) inside
      intro k counted place
      rw [width] at place
      exact beside k counted ⟨by omega, by omega⟩
    refine ⟨⟨rep.size_eq, rep.small, rep.pow2, rep.read_lt, rep.used_le, rep.write_eq, ?_,
      fun _ => rfl, ?_⟩, rfl⟩
    · intro other held
      cases held
      rw [kept, width]
    · rw [contents]
      simp only [same]
      rw [← rep.contents_eq, contents, here]

theorem stores_spare (before : Represents size q r) {after : CircularBuffer}
    (handed : Represents size q after) (start : after.readPos = r.readPos)
    {regions : List Buffer.Region} (apart : Apart r regions)
    (stored : StoredThrough regions after t) : SameToReaders r t := by
  have held : Represents size q t ∧ t.readPos = r.readPos := by
    apply stored.keeps (I := fun u => Represents size q u ∧ u.readPos = r.readPos) ⟨handed, start⟩
    rintro u store v ⟨rep, cursor⟩ ⟨member, filled⟩
    have beside : ∀ k < u.used, ¬ Inside store.region ((u.readPos + k) % size) := by
      intro k counted
      rw [rep.used_eq, ← before.used_eq] at counted
      rw [cursor, ← before.size_eq]
      exact apart k counted store.region member
    obtain ⟨kept, moved⟩ := fillRegion_represents rep beside filled
    exact ⟨kept, moved.trans cursor⟩
  exact sameToReaders before held.1 held.2

/-! Where the slices lie. -/

def Behind (size pos len : Nat) (region : Buffer.Region) : Prop :=
  ∀ index, Inside region index → ∃ j < len, index = (pos + j) % size

theorem behind_empty (size pos len start : Nat) : Behind size pos len ⟨start, 0⟩ := by
  intro index inside
  exact absurd inside.2 (by have low := inside.1; simp only at low ⊢; omega)

theorem behind_straight {size pos len width : Nat} (fits : pos + width ≤ size) (le : width ≤ len) :
    Behind size pos len ⟨pos, width⟩ := by
  intro index inside
  have low := inside.1
  have high := inside.2
  simp only at low high
  refine ⟨index - pos, by omega, ?_⟩
  rw [Nat.add_sub_cancel' low, Nat.mod_eq_of_lt (by omega)]

/-- The slice at the front continues the one at the end. -/
theorem behind_wrapped {size pos len : Nat} (pos_le : pos ≤ size) (le : len ≤ size) :
    Behind size pos len ⟨0, len - (size - pos)⟩ := by
  intro index inside
  have high := inside.2
  simp only [Nat.zero_add] at high
  refine ⟨index + (size - pos), by omega, ?_⟩
  rw [show pos + (index + (size - pos)) = index + size by omega, Nat.add_mod_right,
    Nat.mod_eq_of_lt (by omega)]

theorem apart_of_behind (sound : Sound size r) {len : Nat} (fits : len ≤ size - r.used)
    {regions : List Buffer.Region} (behind : ∀ region ∈ regions, Behind size r.writePos len region) :
    Apart r regions := by
  intro k counted region member inside
  obtain ⟨j, before, place⟩ := behind region member _ inside
  have used := sound.used_le
  have cursor := sound.read_lt (by omega)
  rw [sound.size_eq, sound.write_eq, Nat.mod_add_mod, Nat.add_assoc] at place
  exact place_ne cursor (by omega) (by omega) place

theorem apart_pair (sound : Sound size r) {len : Nat} (fits : len ≤ size - r.used)
    {head tail : Buffer.Region} (first : Behind size r.writePos len head)
    (second : Behind size r.writePos len tail) : Apart r [head, tail] := by
  apply apart_of_behind sound fits
  intro region member
  rcases List.mem_pair.mp member with rfl | rfl
  · exact first
  · exact second

theorem writePtr_apart (sound : Sound size r) {len : Nat} {region : Buffer.Region}
    (handed : writePtr len r = .ok region t) : Apart r [region] ∧ t = r.ensureAllocated := by
  rw [writePtr_spec sound] at handed
  split_ifs at handed with exceeds crosses
  cases handed
  have fits : len ≤ size - r.used := by omega
  refine ⟨apart_of_behind sound fits ?_, rfl⟩
  intro region member
  rw [List.mem_singleton.mp member]
  exact behind_straight (by omega) le_rfl

theorem writeSlicesMut_apart (sound : Sound size r) {len : Nat} {head tail : Buffer.Region}
    (handed : writeSlicesMut len r = .ok (head, tail) t) :
    Apart r [head, tail] ∧ (t = r ∨ t = r.ensureAllocated) := by
  have cursor := sound.write_le
  have nowhere := behind_empty size r.writePos len 0
  rw [writeSlicesMut_spec sound] at handed
  split_ifs at handed with nothing exceeds short
  · cases handed
    exact ⟨apart_pair sound (nothing.trans_le (Nat.zero_le _)) nowhere nowhere, Or.inl rfl⟩
  · cases handed
    have straight : Behind size r.writePos len ⟨r.writePos, len⟩ :=
      behind_straight (by omega) le_rfl
    exact ⟨apart_pair sound (Nat.le_of_not_lt exceeds) straight nowhere, Or.inr rfl⟩
  · cases handed
    have toEnd : Behind size r.writePos len ⟨r.writePos, size - r.writePos⟩ :=
      behind_straight (by omega) (by omega)
    have around : Behind size r.writePos len ⟨0, len - (size - r.writePos)⟩ :=
      behind_wrapped cursor (by omega)
    exact ⟨apart_pair sound (Nat.le_of_not_lt exceeds) toEnd around, Or.inr rfl⟩

end

/-! Disciplined use: `incr_write(n)` only right after `write_ptr(n)` or `write_slices_mut(n)`,
which may also have been refused. -/

/-- A ring and, right after a call that asked for room, for how much it asked. -/
structure Holder where
  ring : CircularBuffer
  asked : Option Nat

def askedBy : RingOp → Option Nat
  | .writePtr len _ _ => some len
  | .writeSlicesMut len _ _ => some len
  | _ => none

def next (s : Holder) (op : RingOp) : Option Holder :=
  (Ring.step op s.ring).state?.map fun ring => ⟨ring, askedBy op⟩

def Disciplined (s : Holder) : RingOp → Prop
  | .incrWrite len => s.asked = some len
  | _ => True

structure Parked (size : Nat) (r : CircularBuffer) : Prop where
  whole : Whole size r
  front : r.data = none → r.readPos = 0

section
variable {size : Nat} {r t : CircularBuffer}

theorem Parked.of_stored (whole : Whole size r) (stored : r.data.isSome) : Parked size r := by
  refine ⟨whole, fun bare => ?_⟩
  rw [bare] at stored
  cases stored

theorem Parked.empty (parked : Parked size r) (bare : r.data = none) :
    r.used = 0 ∧ r.writePos = 0 := by
  have used : r.used = 0 := by
    by_contra some
    have stored := parked.whole.2 (Nat.pos_of_ne_zero some)
    rw [bare] at stored
    cases stored
  refine ⟨used, ?_⟩
  rw [parked.whole.1.write_eq, used, parked.front bare, Nat.zero_mod]

theorem parked_fillRegion (region : Buffer.Region) (offset : Nat) (src : List UInt8) :
    (fillRegion region offset src).Keeps (Parked size) := by
  intro r t parked done
  have whole := whole_fillRegion region offset src r t parked.whole done
  rcases fillRegion_cases done with rfl | ⟨buffer, after, -, -, rfl⟩
  · exact parked
  · exact .of_stored whole rfl

theorem parked_writePtr (len : Nat) : (writePtr len).Keeps (Parked size) := by
  intro r t parked done
  have allocated := whole_allocated parked.whole.1
  rw [writePtr_spec parked.whole.1] at done
  split_ifs at done
  · cases done
    exact parked
  · cases done
    exact parked
  · cases done
    exact .of_stored allocated (ensureAllocated_stored r)

theorem parked_writeSlicesMut (len : Nat) : (writeSlicesMut len).Keeps (Parked size) := by
  intro r t parked done
  have allocated := whole_allocated parked.whole.1
  rw [writeSlicesMut_spec parked.whole.1] at done
  split_ifs at done
  · cases done
    exact parked
  · cases done
    exact parked
  · cases done
    exact .of_stored allocated (ensureAllocated_stored r)
  · cases done
    exact .of_stored allocated (ensureAllocated_stored r)

theorem whole_of_empty (sound : Sound 0 r) : Whole 0 r := by
  have used := sound.used_le
  exact ⟨sound, fun some => by omega⟩

theorem stored_write (sound : Sound size r) {data : List UInt8}
    (done : (CircularBuffer.write data r).state? = some t) : t = r ∨ t.data.isSome := by
  by_cases empty : data.length = 0
  · rw [CircularBuffer.write, if_pos empty] at done
    cases done
    exact Or.inl rfl
  · by_cases fits : data.length ≤ size - r.used
    · obtain ⟨-, buffer, here⟩ := sound.allocated
      rw [write_fits sound here (Nat.pos_of_ne_zero empty) fits] at done
      cases done
      exact Or.inr rfl
    · rw [write_exceeds sound (by omega)] at done
      cases done
      exact Or.inl rfl

theorem stored_read {output : List UInt8}
    (done : (CircularBuffer.read output r).state? = some t) : t = r ∨ t.data.isSome := by
  unfold CircularBuffer.read at done
  split at done
  · cases done
    exact Or.inl rfl
  · cases done
    exact Or.inl rfl
  · rename_i buffer _ here
    obtain ⟨_, done⟩ := attempt_state?.mp done
    obtain ⟨_, -, done⟩ := ok_of_bind done
    obtain ⟨_, -, done⟩ := ok_of_bind done
    obtain ⟨_, -, done⟩ := ok_of_bind done
    cases done
    exact Or.inr (by rw [here]; rfl)

theorem Parked.of_moved (parked : Parked size r) (whole : Whole size t)
    (moved : t = r ∨ t.data.isSome) : Parked size t := by
  rcases moved with rfl | stored
  · exact parked
  · exact .of_stored whole stored

theorem parked_step (parked : Parked size r) {op : RingOp} (backed : Backed r op)
    (stepped : Stepped r op t) : Parked size t := by
  have sound := parked.whole.1
  have whole : Whole size t := by
    by_cases positive : 0 < size
    · exact whole_step parked.whole positive backed stepped
    · obtain rfl : size = 0 := by omega
      exact whole_of_empty (sound_step sound stepped)
  cases op with
  | write data =>
    simp only [Stepped, Ring.step, state?_map] at stepped
    exact parked.of_moved whole (stored_write sound stepped)
  | read output =>
    simp only [Stepped, Ring.step, state?_map] at stepped
    exact parked.of_moved whole (stored_read stepped)
  | peek output =>
    simp only [Stepped, Ring.step, state?_map, peek_sound sound, Option.some.injEq] at stepped
    exact stepped ▸ parked
  | readPtrs =>
    simp only [Stepped, Ring.step] at stepped
    obtain ⟨_, done⟩ := attempt_state?.mp stepped
    obtain ⟨_, _, done⟩ := ok_of_bind done
    cases done
    exact parked
  | writePtr len offset src =>
    exact keeps_writePtr (parked_writePtr len) parked_fillRegion offset src r t parked stepped
  | writeSlicesMut len first second =>
    exact keeps_writeSlicesMut (parked_writeSlicesMut len) parked_fillRegion first second r t parked
      stepped
  | incrWrite len =>
    simp only [Stepped, Ring.step, state?_map] at stepped
    rcases incrWrite_cases sound stepped with rfl | ⟨-, -, rfl⟩
    · exact parked
    · exact ⟨whole, parked.front⟩
  | incrRead len =>
    simp only [Stepped, Ring.step, state?_map] at stepped
    rcases incrRead_cases sound stepped with rfl | ⟨-, enough, rfl⟩
    · exact parked
    · refine ⟨whole, fun bare => ?_⟩
      -- nothing is stored, so the cursor has moved by nothing
      obtain ⟨used, -⟩ := parked.empty bare
      obtain rfl : len = 0 := by omega
      simp only [parked.front bare, Nat.add_zero, Nat.zero_mod]
  | clear =>
    cases stepped
    exact ⟨whole, fun _ => rfl⟩
  | free =>
    cases stepped
    exact ⟨whole, fun _ => rfl⟩

/-- Room that was asked for is in storage, or else `incr_write` of as much is refused. Storage is
there after a slice was handed out; and where `write_ptr` refused one for crossing the end, the
write cursor is not at the front. -/
theorem asked_backed (parked : Parked size r) {op : RingOp} (stepped : Stepped r op t) {len : Nat}
    (asked : askedBy op = some len) : Backed t (.incrWrite len) := by
  have sound := parked.whole.1
  cases op with
  | writePtr n offset src =>
    cases asked
    rcases bind_state? stepped with ⟨error, refused⟩ | ⟨region, middle, handed, later⟩
    · rw [writePtr_spec sound] at refused
      split_ifs at refused with exceeds crosses
      · cases refused
        intro some fits
        rw [sound.size_eq] at fits
        omega
      · cases refused
        intro some fits
        by_contra bare
        obtain ⟨-, front⟩ := parked.empty (Option.not_isSome_iff_eq_none.mp bare)
        rw [sound.size_eq] at fits
        omega
    · have stored : middle.data.isSome := by
        rw [(writePtr_apart sound handed).2]
        exact ensureAllocated_stored r
      intro _ _
      exact keeps_fill stored_fillRegion region offset src middle t stored later
  | writeSlicesMut n first second =>
    cases asked
    rcases bind_state? stepped with ⟨error, refused⟩ | ⟨⟨head, tail⟩, middle, handed, later⟩
    · rw [writeSlicesMut_spec sound] at refused
      split_ifs at refused with nothing exceeds
      cases refused
      intro some fits
      rw [sound.size_eq] at fits
      omega
    · intro some _
      have stored : middle.data.isSome := by
        rw [writeSlicesMut_spec sound, if_neg some.ne'] at handed
        split_ifs at handed
        · cases handed
          exact ensureAllocated_stored r
        · cases handed
          exact ensureAllocated_stored r
      exact keeps_fill_both stored_fillRegion head tail first second middle t stored later
  | _ => cases asked

end

section
variable {size : Nat} {s t : Holder}

structure Kept (size : Nat) (s : Holder) : Prop where
  parked : Parked size s.ring
  backed : ∀ len, s.asked = some len → Backed s.ring (.incrWrite len)

theorem kept_next (kept : Kept size s) {op : RingOp} (disciplined : Disciplined s op)
    (taken : next s op = some t) : Kept size t := by
  have backed : Backed s.ring op := by
    cases op with
    | incrWrite len => exact kept.backed len disciplined
    | _ => trivial
  obtain ⟨ring, stepped, rfl⟩ := Option.map_eq_some_iff.mp taken
  refine ⟨parked_step kept.parked backed stepped, ?_⟩
  exact fun len asked => asked_backed kept.parked stepped asked

/-- After any disciplined use of a ring, whatever `write_ptr` or `write_slices_mut` hands out is
apart from the bytes still to be read; and whatever is stored through it, a reader of the ring is
told what it would have been told before. -/
theorem handed_slices_spare {start : CircularBuffer} (made : Made size start)
    (run : Reaches (Guarded Disciplined fun s op t => next s op = some t) ⟨start, none⟩ s) :
    (∀ len region after, writePtr len s.ring = .ok region after →
      Apart s.ring [region] ∧ ∀ t, StoredThrough [region] after t → SameToReaders s.ring t) ∧
    ∀ len head tail after, writeSlicesMut len s.ring = .ok (head, tail) after →
      Apart s.ring [head, tail] ∧
        ∀ t, StoredThrough [head, tail] after t → SameToReaders s.ring t := by
  have fresh : Parked size start := by
    refine ⟨whole_new made, fun _ => ?_⟩
    have new := made.new_eq
    unfold CircularBuffer.new at new
    split_ifs at new
    cases new
    rfl
  have kept : Kept size s := run.keeps ⟨fresh, nofun⟩ fun _ _ _ holds taken =>
    kept_next holds taken.1 taken.2
  have sound := kept.parked.whole.1
  have rep := sound.represents kept.parked.whole.2
  have made := rep.allocated.1
  refine ⟨fun len region after handed => ?_, fun len head tail after handed => ?_⟩
  · obtain ⟨apart, rfl⟩ := writePtr_apart sound handed
    exact ⟨apart, fun t stored => stores_spare rep made ensureAllocated_readPos apart stored⟩
  · obtain ⟨apart, rfl | rfl⟩ := writeSlicesMut_apart sound handed
    · exact ⟨apart, fun t stored => stores_spare rep rep rfl apart stored⟩
    · exact ⟨apart, fun t stored => stores_spare rep made ensureAllocated_readPos apart stored⟩

instance decidableDisciplined (s : Holder) : (op : RingOp) → Decidable (Disciplined s op)
  | .incrWrite len => inferInstanceAs (Decidable (s.asked = some len))
  | .write _ | .read _ | .peek _ | .readPtrs | .writePtr .. | .writeSlicesMut .. | .incrRead _
  | .clear | .free => .isTrue trivial

theorem handed_slices_spare_five :
    ∃ start s region after t, CircularBuffer.new 5 = .ok start ∧
      exec next ⟨start, none⟩ [.write [1, 2, 3, 4], .incrRead 3, .writeSlicesMut 2 [5] [6],
        .incrWrite 2] = some s ∧ s.ring.readPtrs = .ok ([4, 5], [6]) ∧
      writePtr 2 s.ring = .ok region after ∧ fillRegion region 1 [7] after = .ok () t ∧
      t.data = some [6, 2, 7, 4, 5] ∧ Apart s.ring [region] ∧ SameToReaders s.ring t := by
  obtain ⟨start, s, region, after, t, made, script, slices, handed, filled, bytes⟩ :
      ∃ start s region after t, CircularBuffer.new 5 = .ok start ∧
        exec next ⟨start, none⟩ [.write [1, 2, 3, 4], .incrRead 3, .writeSlicesMut 2 [5] [6],
          .incrWrite 2] = some s ∧ s.ring.readPtrs = .ok ([4, 5], [6]) ∧
        writePtr 2 s.ring = .ok region after ∧ fillRegion region 1 [7] after = .ok () t ∧
        t.data = some [6, 2, 7, 4, 5] :=
    ⟨_, _, _, _, _, rfl, rfl, rfl, rfl, rfl, rfl⟩
  have run : Reaches (Guarded Disciplined fun s op t => next s op = some t) ⟨start, none⟩ s :=
    .of_script script (by cases made; decide)
  obtain ⟨apart, spared⟩ := (handed_slices_spare (.new made) run).1 2 region after handed
  have stored : StoredThrough [region] after t :=
    .single ⟨⟨region, 1, [7]⟩, List.mem_cons_self, filled⟩
  exact ⟨start, s, region, after, t, made, script, slices, handed, filled, bytes, apart,
    spared t stored⟩

end

end Secbuf.RingFrame
