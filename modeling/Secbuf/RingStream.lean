import Secbuf.RingFrame
import Secbuf.RingSlices

/-! A ring as a stream. Bytes come in by `write` or through filled slices, and leave by `read`,
`incr_read`, `clear` or `free`; whatever is mixed with what, they leave in the order in which they
came, none twice and none left out. -/

namespace Secbuf.RingStream
open Calls Splice RingWindow Storage BufferCore Secbuf.Ring CircularBuffer RingFifo RingCursors
  RingDrain RingSlices

/-- A ring and, right after an operation that filled slices, the bytes it laid into them. -/
structure Stage where
  ring : CircularBuffer
  laid : Option (List UInt8)

def laidBy : RingOp → Option (List UInt8)
  | .writePtr len _ src => if src.length = len then some src else none
  | .writeSlicesMut len first second =>
    if first.length + second.length = len then some (first ++ second) else none
  | _ => none

def next (s : Stage) (op : RingOp) : Option Stage :=
  match Ring.step op s.ring with
  | .ok _ ring => some ⟨ring, laidBy op⟩
  | .err _ ring => some ⟨ring, none⟩
  | .fault _ => none

/-- `incr_write(n)` comes only right after slices of `n` bytes were filled. -/
def Disciplined (s : Stage) : RingOp → Prop
  | .incrWrite len => s.laid.map List.length = some len
  | _ => True

def shown (r : CircularBuffer) : List UInt8 :=
  match r.readPtrs with
  | .ok (first, second) => first ++ second
  | .error _ => []

def joins (s : Stage) : RingOp → Outcome CircularBuffer BufferError RingReply → List UInt8
  | .write data, .ok _ _ => data
  | .incrWrite _, .ok _ _ => s.laid.getD []
  | _, _ => []

/-- The bytes that leave it: the ones put into a reader's output, the ones stepped over after they
were shown, and the ones thrown away. -/
def leaves (s : Stage) : RingOp → Outcome CircularBuffer BufferError RingReply → List UInt8
  | .read _, .ok (.copied n output) _ => output.take n
  | .incrRead n, .ok _ _ => (shown s.ring).take n
  | .clear, _ | .free, _ => shown s.ring
  | _, _ => []

def accepted (s : Stage) (op : RingOp) : List UInt8 := joins s op (Ring.step op s.ring)

def removed (s : Stage) (op : RingOp) : List UInt8 := leaves s op (Ring.step op s.ring)

def Stage.session (s : Stage) : Session := ⟨s.ring, s.laid.map List.length⟩

theorem filledBy_eq (op : RingOp) : filledBy op = (laidBy op).map List.length := by
  cases op with
  | writePtr len offset src =>
    by_cases same : src.length = len
    · simp [filledBy, laidBy, same]
    · simp [filledBy, laidBy, same]
  | writeSlicesMut len first second =>
    by_cases same : first.length + second.length = len
    · simp [filledBy, laidBy, same]
    · simp [filledBy, laidBy, same]
  | _ => rfl

section
variable {size : Nat} {q : List UInt8} {r t : CircularBuffer}

theorem shown_eq (rep : Represents size q r) : shown r = q := by
  obtain ⟨first, second, slices, whole⟩ := readPtrs_spec rep
  rw [shown, slices]
  exact whole

def Commits (r : CircularBuffer) (bytes : List UInt8) : Prop :=
  ∃ after, incrWrite bytes.length r = .ok () after ∧ shown after = shown r ++ bytes

theorem commits_nil (whole : Whole size r) (positive : 0 < size) : Commits r [] := by
  have moved := incrWrite_spec whole.1 positive 0
  have still : (r.writePos + 0) % size = r.writePos := by
    rw [whole.1.write_eq, Nat.add_zero, Nat.mod_mod]
  rw [if_neg (Nat.not_lt_zero _), still, Nat.add_zero] at moved
  exact ⟨r, moved, (List.append_nil _).symm⟩

theorem commits_of_written (whole : Whole size r) {bytes : List UInt8} (same : shown t = shown r)
    (room : bytes.length ≤ size - r.used)
    (written : incrWrite bytes.length t = (CircularBuffer.write bytes).map (fun _ => ()) r) :
    Commits t bytes := by
  have rep := whole.1.represents whole.2
  have used := rep.used_eq
  have bound := rep.used_le
  have fits : (contents r).length + bytes.length ≤ size := by omega
  obtain ⟨after, done, joined⟩ := write_accepts rep fits
  refine ⟨after, ?_, ?_⟩
  · rw [written, Call.map, done]
  · rw [shown_eq joined, same, shown_eq rep]

theorem filled_room {region : Buffer.Region} {offset : Nat} {src : List UInt8}
    (stored : fillRegion region offset src r = .ok () t) : offset + src.length ≤ region.length := by
  unfold fillRegion at stored
  split_ifs at stored with exceeds
  · omega
  · omega

theorem shown_same (same : RingFrame.SameToReaders r t) : shown t = shown r := by
  rw [shown, shown, same.readPtrs]

theorem writePtr_laid (whole : Whole size r) (kept : Whole size t) (positive : 0 < size) {len offset : Nat}
    {src : List UInt8} {reply : RingReply} (done : Ring.step (.writePtr len offset src) r = .ok reply t) :
    shown t = shown r ∧ (src.length = len → Commits t src) := by
  obtain ⟨region, middle, handed, later⟩ := bind_ok.mp done
  obtain ⟨_, after, stored, last⟩ := bind_ok.mp later
  cases last
  have rep := whole.1.represents whole.2
  obtain ⟨apart, rfl⟩ := RingFrame.writePtr_apart whole.1 handed
  have through : RingFrame.StoredThrough [region] r.ensureAllocated t :=
    .single ⟨⟨region, offset, src⟩, List.mem_singleton_self _, stored⟩
  have same := shown_same
    (RingFrame.stores_spare rep rep.allocated.1 ensureAllocated_readPos apart through)
  refine ⟨same, fun length => ?_⟩
  obtain ⟨rfl, fits, inside, -⟩ := writePtr_handed whole.1 handed
  have room := filled_room stored
  obtain rfl : offset = 0 := by
    simp only at room
    omega
  by_cases empty : src.length = 0
  · rw [List.eq_nil_of_length_eq_zero empty]
    exact commits_nil kept positive
  · apply commits_of_written whole same (by omega)
    rw [← writeThroughPtr_eq whole.1 (by omega) (by omega) (by omega), writeThroughPtr, length,
      bind_of_ok handed, bind_of_ok stored]

theorem writeSlicesMut_laid (whole : Whole size r) (positive : 0 < size) {len : Nat}
    {first second : List UInt8} {reply : RingReply}
    (done : Ring.step (.writeSlicesMut len first second) r = .ok reply t) :
    shown t = shown r ∧ (first.length + second.length = len → Commits t (first ++ second)) := by
  obtain ⟨⟨head, tail⟩, middle, handed, later⟩ := bind_ok.mp done
  obtain ⟨_, between, stored, later⟩ := bind_ok.mp later
  obtain ⟨_, after, stored', last⟩ := bind_ok.mp later
  cases last
  have rep := whole.1.represents whole.2
  have same : shown t = shown r := by
    obtain ⟨apart, fresh⟩ := RingFrame.writeSlicesMut_apart whole.1 handed
    have through : RingFrame.StoredThrough [head, tail] middle t :=
      .tail (.single ⟨⟨head, 0, first⟩, List.mem_cons_self, stored⟩)
        ⟨⟨tail, 0, second⟩, List.mem_cons_of_mem _ List.mem_cons_self, stored'⟩
    rcases fresh with rfl | rfl
    · exact shown_same (RingFrame.stores_spare rep rep rfl apart through)
    · exact shown_same
        (RingFrame.stores_spare rep rep.allocated.1 ensureAllocated_readPos apart through)
  refine ⟨same, fun length => ?_⟩
  have room := filled_room stored
  have room' := filled_room stored'
  have total := writeSlicesMut_total whole.1 handed
  have cut : first.length = head.length := by omega
  have joined : (first ++ second).length = len := by rw [List.length_append, length]
  have fits := (writeSlicesMut_accepts whole.1 len).mp ⟨_, _, handed⟩
  apply commits_of_written whole same (by omega)
  rw [← writeThroughSlices_eq whole.1 positive, writeThroughSlices, joined, bind_of_ok handed]
  simp only
  rw [← cut, List.take_left, List.drop_left, bind_of_ok stored, bind_of_ok stored']

end

section
variable {size : Nat} {s t : Stage} {op : RingOp}

theorem next_session (taken : next s op = some t) :
    RingSlices.next s.session op = some t.session := by
  unfold next at taken
  simp only [RingSlices.next, Stage.session, filledBy_eq]
  cases done : Ring.step op s.ring with
  | ok reply ring =>
    rw [done] at taken
    cases taken
    rfl
  | err error ring =>
    rw [done] at taken
    cases taken
    rfl
  | fault reason =>
    rw [done] at taken
    cases taken

/-- Storage for what is counted, and filled slices that `incr_write` can commit. -/
structure Flows (size : Nat) (s : Stage) : Prop where
  kept : RingSlices.Kept size s.session
  laid : ∀ bytes, s.laid = some bytes → Commits s.ring bytes

theorem Flows.whole (flows : Flows size s) : Whole size s.ring := flows.kept.whole

theorem Flows.rep (flows : Flows size s) : Represents size (contents s.ring) s.ring :=
  flows.whole.1.represents flows.whole.2

theorem next_ok {reply : RingReply} {ring : CircularBuffer} (done : Ring.step op s.ring = .ok reply ring)
    (taken : next s op = some t) : t = ⟨ring, laidBy op⟩ := by
  rw [next, done] at taken
  cases taken
  rfl

theorem next_err {error : BufferError} {ring : CircularBuffer}
    (failed : Ring.step op s.ring = .err error ring) (taken : next s op = some t) : t = ⟨ring, none⟩ := by
  rw [next, failed] at taken
  cases taken
  rfl

def Level (s : Stage) (op : RingOp) (t : Stage) : Prop :=
  shown s.ring ++ accepted s op = removed s op ++ shown t.ring

theorem level_write (flows : Flows size s) {data : List UInt8} (taken : next s (.write data) = some t) :
    Level s (.write data) t := by
  have rep := flows.rep
  by_cases fits : (contents s.ring).length + data.length ≤ size
  · obtain ⟨after, done, joined⟩ := write_accepts rep fits
    have stepped : Ring.step (.write data) s.ring = .ok (.size data.length) after := by
      rw [Ring.step, Call.map, done]
    obtain rfl := next_ok stepped taken
    simp only [Level, accepted, removed, stepped, joins, leaves, List.nil_append]
    rw [shown_eq rep, shown_eq joined]
  · have refused : Ring.step (.write data) s.ring = .err .insufficientSpace s.ring := by
      rw [Ring.step, Call.map, write_refuses rep (by omega)]
    obtain rfl := next_err refused taken
    simp only [Level, accepted, removed, refused, joins, leaves, List.nil_append, List.append_nil]

theorem level_read (flows : Flows size s) {output : List UInt8} (taken : next s (.read output) = some t) :
    Level s (.read output) t := by
  have rep := flows.rep
  obtain ⟨after, done, rest⟩ := read_spec rep output
  have stepped : Ring.step (.read output) s.ring = .ok (.copied (min output.length (contents s.ring).length)
      ((contents s.ring).take output.length ++
        output.drop (min output.length (contents s.ring).length))) after := by
    rw [Ring.step, Call.map, done]
  obtain rfl := next_ok stepped taken
  have length : ((contents s.ring).take output.length).length =
      min output.length (contents s.ring).length := List.length_take
  simp only [Level, accepted, removed, stepped, joins, leaves, List.append_nil]
  rw [shown_eq rep, shown_eq rest, ← length, List.take_left, List.take_append_drop]

theorem level_same (same : shown t.ring = shown s.ring) (joins : accepted s op = [])
    (leaves : removed s op = []) : Level s op t := by
  rw [Level, joins, leaves, same, List.append_nil, List.nil_append]

theorem level_incrWrite (flows : Flows size s) {len : Nat} (disciplined : Disciplined s (.incrWrite len))
    (taken : next s (.incrWrite len) = some t) : Level s (.incrWrite len) t := by
  obtain ⟨bytes, laid, rfl⟩ := Option.map_eq_some_iff.mp disciplined
  obtain ⟨after, done, joined⟩ := flows.laid bytes laid
  have stepped : Ring.step (.incrWrite bytes.length) s.ring = .ok .unit after := by
    rw [Ring.step, Call.map, done]
  obtain rfl := next_ok stepped taken
  simp only [Level, accepted, removed, stepped, joins, leaves, laid, Option.getD_some, List.nil_append]
  exact joined.symm

theorem level_incrRead (flows : Flows size s) (positive : 0 < size) {len : Nat}
    (taken : next s (.incrRead len) = some t) : Level s (.incrRead len) t := by
  have rep := flows.rep
  by_cases enough : len ≤ s.ring.used
  · obtain ⟨first, second, after, -, done, reads⟩ := read_shown flows.whole positive enough
    have stepped : Ring.step (.incrRead len) s.ring = .ok .unit after := by
      rw [Ring.step, Call.map, done]
    obtain rfl := next_ok stepped taken
    -- `incr_read` leaves what a `read` of as many bytes leaves
    obtain ⟨after', read, rest⟩ := read_spec rep (List.replicate len 0)
    rw [reads _ List.length_replicate] at read
    injection read with _ same
    rw [← same, List.length_replicate] at rest
    simp only [Level, accepted, removed, stepped, joins, leaves, List.append_nil]
    rw [shown_eq rep, shown_eq rest, List.take_append_drop]
  · have refused : Ring.step (.incrRead len) s.ring = .err .bufferOverflow s.ring := by
      rw [Ring.step, Call.map, incrRead_spec flows.whole.1 positive, if_pos (by omega)]
    obtain rfl := next_err refused taken
    simp only [Level, accepted, removed, refused, joins, leaves, List.nil_append, List.append_nil]

theorem flows_step (flows : Flows size s) (positive : 0 < size) (disciplined : Disciplined s op)
    (taken : next s op = some t) : Flows size t := by
  have session := next_session taken
  have allowed : RingSlices.Disciplined s.session op := by
    cases op with
    | incrWrite len => exact disciplined
    | _ => trivial
  have kept := kept_next flows.kept positive allowed session
  refine ⟨kept, fun bytes laid => ?_⟩
  cases stepped : Ring.step op s.ring with
  | fault reason =>
    rw [next, stepped] at taken
    cases taken
  | err error ring =>
    obtain rfl := next_err stepped taken
    cases laid
  | ok reply ring =>
    obtain rfl := next_ok stepped taken
    cases op with
    | writePtr len offset src =>
      simp only [laidBy] at laid
      split_ifs at laid with length
      cases laid
      exact (writePtr_laid flows.whole kept.whole positive stepped).2 length
    | writeSlicesMut len first second =>
      simp only [laidBy] at laid
      split_ifs at laid with length
      cases laid
      exact (writeSlicesMut_laid flows.whole positive stepped).2 length
    | _ => cases laid

theorem refused_of_err {α : Type} {hand : RingM α} {fill : α → RingM RingReply} {r ring : CircularBuffer}
    {error : BufferError} (fills : ∀ value middle, fill value middle ≠ .err error ring)
    (failed : (hand >>= fill) r = .err error ring) : hand r = .err error ring := by
  cases handed : hand r with
  | ok value middle =>
    rw [bind_of_ok handed] at failed
    exact absurd failed (fills value middle)
  | err other middle =>
    rw [bind_of_err handed] at failed
    cases failed
    rfl
  | fault reason =>
    rw [bind_apply, handed] at failed
    cases failed

theorem fillRegion_total (region : Buffer.Region) (offset : Nat) (src : List UInt8)
    {r ring : CircularBuffer} {error : BufferError} : fillRegion region offset src r ≠ .err error ring := by
  unfold fillRegion
  split_ifs
  · exact nofun
  · exact nofun
  · exact attempt_err

theorem fill_total (region : Buffer.Region) (offset : Nat) (src : List UInt8) {r ring : CircularBuffer}
    {error : BufferError} :
    (fillRegion region offset src >>= fun _ => pure RingReply.unit : RingM RingReply) r ≠
      .err error ring := by
  intro failed
  apply fillRegion_total region offset src (refused_of_err _ failed)
  intro value middle last
  rw [pure_apply] at last
  cases last

theorem fill_both_total (head tail : Buffer.Region) (first second : List UInt8)
    {r ring : CircularBuffer} {error : BufferError} :
    (fillRegion head 0 first >>= fun _ => fillRegion tail 0 second >>= fun _ =>
      pure RingReply.unit : RingM RingReply) r ≠ .err error ring := by
  intro failed
  exact fillRegion_total head 0 first (refused_of_err (fun _ _ => fill_total tail 0 second) failed)

theorem slices_refused (sound : Sound size s.ring) {len : Nat} (asks : RingFrame.askedBy op = some len)
    {error : BufferError} {ring : CircularBuffer} (failed : Ring.step op s.ring = .err error ring) :
    ring = s.ring := by
  cases op with
  | writePtr n offset src =>
    have refused := refused_of_err (fun region _ => fill_total region offset src) failed
    rw [writePtr_spec sound] at refused
    split_ifs at refused
    · cases refused
      rfl
    · cases refused
      rfl
  | writeSlicesMut n first second =>
    have refused := refused_of_err (fun (regions : Buffer.Region × Buffer.Region) _ =>
      fill_both_total regions.1 regions.2 first second) failed
    rw [writeSlicesMut_spec sound] at refused
    split_ifs at refused
    cases refused
    rfl
  | _ => cases asks

theorem shown_slices (flows : Flows size s) (positive : 0 < size) {len : Nat}
    (asks : RingFrame.askedBy op = some len) (taken : next s op = some t) :
    shown t.ring = shown s.ring := by
  have sound := flows.whole.1
  cases stepped : Ring.step op s.ring with
  | ok reply ring =>
    obtain rfl := next_ok stepped taken
    cases op with
    | writePtr n offset src =>
      have after := flows_step flows positive (show Disciplined s (.writePtr n offset src) from trivial) taken
      exact (writePtr_laid flows.whole after.whole positive stepped).1
    | writeSlicesMut n first second => exact (writeSlicesMut_laid flows.whole positive stepped).1
    | _ => cases asks
  | err error ring =>
    obtain rfl := next_err stepped taken
    rw [slices_refused sound asks stepped]
  | fault reason =>
    rw [next, stepped] at taken
    cases taken

theorem level_step (flows : Flows size s) (positive : 0 < size) (disciplined : Disciplined s op)
    (taken : next s op = some t) : Level s op t := by
  have rep := flows.rep
  cases op with
  | write data => exact level_write flows taken
  | read output => exact level_read flows taken
  | incrWrite len => exact level_incrWrite flows disciplined taken
  | incrRead len => exact level_incrRead flows positive taken
  | peek output =>
    have looked := peek_spec rep output
    have same : t.ring = s.ring := by
      simp only [next, Ring.step, Call.map, looked] at taken
      cases taken
      rfl
    exact level_same (congrArg shown same) rfl rfl
  | readPtrs =>
    obtain ⟨first, second, slices, -⟩ := readPtrs_spec rep
    have same : t.ring = s.ring := by
      simp only [next, Ring.step, Call.attempt, slices, ok_bind] at taken
      cases taken
      rfl
    exact level_same (congrArg shown same) rfl rfl
  | writePtr len offset src => exact level_same (shown_slices flows positive rfl taken) rfl rfl
  | writeSlicesMut len first second =>
    exact level_same (shown_slices flows positive rfl taken) rfl rfl
  | clear =>
    cases taken
    change shown s.ring ++ [] = shown s.ring ++ shown s.ring.clear
    rw [shown_eq (clear_spec rep)]
  | free =>
    cases taken
    change shown s.ring ++ [] = shown s.ring ++ shown s.ring.free
    rw [shown_eq (free_spec rep)]

/-- On every ring of non-zero capacity and in every disciplined run, however copying and zero-copy
calls are mixed: the bytes that have joined the stream are, in this order, the ones that have left it
and the ones a reader is shown now, of which there are `used()`. -/
theorem bytes_in_order {start : CircularBuffer} {ops : List RingOp} (positive : 0 < size)
    (made : Made size start) (script : exec next ⟨start, none⟩ ops = some s)
    (meets : Meets next Disciplined ⟨start, none⟩ ops) :
    gathered next accepted ⟨start, none⟩ ops = gathered next removed ⟨start, none⟩ ops ++ shown s.ring ∧
      (shown s.ring).length = s.ring.used := by
  have fresh : Flows size ⟨start, none⟩ := ⟨⟨whole_new made, nofun⟩, nofun⟩
  have empty : shown start = [] := by
    have new := made.new_eq
    unfold CircularBuffer.new at new
    split_ifs at new
    cases new
    rfl
  have one (n m : List UInt8) (s : Stage) (op : RingOp) (t : Stage)
      (before : Flows size s ∧ n = m ++ shown s.ring) (disciplined : Disciplined s op)
      (taken : next s op = some t) :
      Flows size t ∧ n ++ accepted s op = m ++ removed s op ++ shown t.ring := by
    obtain ⟨flows, rfl⟩ := before
    have level := level_step flows positive disciplined taken
    refine ⟨flows_step flows positive disciplined taken, ?_⟩
    calc m ++ shown s.ring ++ accepted s op
        = m ++ (shown s.ring ++ accepted s op) := List.append_assoc _ _ _
      _ = m ++ (removed s op ++ shown t.ring) := congrArg (m ++ ·) level
      _ = m ++ removed s op ++ shown t.ring := (List.append_assoc _ _ _).symm
  have begins : Flows size ⟨start, none⟩ ∧ [] = [] ++ shown start := ⟨fresh, by rw [empty]; rfl⟩
  obtain ⟨flows, order⟩ := exec_gathers one begins script meets
  exact ⟨order, by rw [shown_eq flows.rep, flows.rep.used_eq]⟩

instance decidableDisciplined (s : Stage) : (op : RingOp) → Decidable (Disciplined s op)
  | .incrWrite len => inferInstanceAs (Decidable (s.laid.map List.length = some len))
  | .write _ | .read _ | .peek _ | .readPtrs | .writePtr .. | .writeSlicesMut .. | .incrRead _
  | .clear | .free => .isTrue trivial

theorem bytes_in_order_five :
    ∃ start s, CircularBuffer.new 4 = .ok start ∧
      exec next ⟨start, none⟩ [.write [1, 2, 3], .read [0, 0], .writeSlicesMut 2 [4] [5], .incrWrite 2,
        .incrRead 1] = some s ∧
      gathered next accepted ⟨start, none⟩ [.write [1, 2, 3], .read [0, 0], .writeSlicesMut 2 [4] [5],
        .incrWrite 2, .incrRead 1] =
      gathered next removed ⟨start, none⟩ [.write [1, 2, 3], .read [0, 0], .writeSlicesMut 2 [4] [5],
        .incrWrite 2, .incrRead 1] ++ shown s.ring := by
  obtain ⟨start, s, made, script⟩ : ∃ start s, CircularBuffer.new 4 = .ok start ∧
      exec next ⟨start, none⟩ [.write [1, 2, 3], .read [0, 0], .writeSlicesMut 2 [4] [5], .incrWrite 2,
        .incrRead 1] = some s := ⟨_, _, rfl, rfl⟩
  cases made
  exact ⟨_, s, rfl, script, (bytes_in_order (show 0 < 4 by decide) (.new rfl) script (by decide)).1⟩

end

end Secbuf.RingStream
