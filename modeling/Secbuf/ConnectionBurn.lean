import Secbuf.Connection
import Secbuf.Filling

/-! What a burn leaves behind. It clears everything once and then stands aside until the flag is
reset, so whatever is put into a burned connection outlives the next burn; and nothing else
does. -/

namespace Secbuf.ConnectionBurn
open Calls Storage BufferCore BufferScript Connection Filling

def Wiped (field : Option Buffer) : Prop := ∀ buf, field = some buf → Blank buf

structure Clean (c : ConnectionBuffers) : Prop where
  readBuf : Wiped c.readBuf
  writeBuf : Wiped c.writeBuf
  streamBufs : ∀ ring ∈ c.streamBufs, Released ring
  packetQueue : c.packetQueue = []
  packetQueueBytes : c.packetQueueBytes = 0

def FillsPresent (field : Option Buffer) (op : BufferOp) : Prop :=
  ∃ buf, field = some buf ∧ fillsBuffer buf op

/-- The operations that put something into a clean connection. -/
def Fills (c : ConnectionBuffers) : ConnOp → Prop
  | .useReadBuf op => FillsPresent c.readBuf op
  | .useWriteBuf op => FillsPresent c.writeBuf op
  | .useStreamBuf i op => ∃ ring, c.streamBufs[i]? = some ring ∧ fillsRing ring op
  | .queuePacket buf =>
    c.packetQueueLen < c.config.maxPacketQueueSize ∧
      usizeAdd c.packetQueueBytes buf.len ≤ c.config.maxPacketQueueBytes
  | _ => False

/-- Nothing is put into a connection between a burn and the reset after it. -/
def Quiet (c : ConnectionBuffers) (op : ConnOp) : Prop := c.burned = true → ¬ Fills c op

/-- A connection that a further burn would leave clean. -/
def Burnable (c : ConnectionBuffers) : Prop := c.burned = true → Clean c

def flagAfter (c : ConnectionBuffers) : ConnOp → Bool
  | .reset => false
  | .burn => true
  | _ => c.burned

theorem wiped_some {buf : Buffer} : Wiped (some buf) ↔ Blank buf := by
  simp [Wiped]

theorem wiped_map {field : Option Buffer} {change : Buffer → Buffer}
    (blank : ∀ buf, field = some buf → Blank (change buf)) : Wiped (field.map change) := by
  intro buf present
  obtain ⟨before, was, rfl⟩ := Option.map_eq_some_iff.mp present
  exact blank before was

theorem wiped_step {field after : Option Buffer} (wiped : Wiped field) {op : BufferOp}
    (settled : settlePresent (BufferScript.step op) field = .ok after) :
    Wiped after ↔ ¬ FillsPresent field op := by
  cases field with
  | none =>
    cases settled
    exact iff_of_true wiped (by simp [FillsPresent])
  | some buf =>
    obtain ⟨left, stepped, same⟩ := ok_of_bind settled
    cases same
    rw [wiped_some, blank_step (wiped buf rfl) (settle_ok.mp stepped)]
    simp [FillsPresent]

section
variable {c t : ConnectionBuffers}

theorem clean_burn_iff : Clean c.burn ↔ Burnable c := by
  unfold ConnectionBuffers.burn Burnable
  split_ifs with burned
  · exact ⟨fun clean _ => clean, fun clean => clean burned⟩
  · refine iff_of_true ⟨?_, ?_, ?_, rfl, rfl⟩ (fun set => absurd set burned)
    · exact wiped_map fun buf _ => blank_burn buf
    · exact wiped_map fun buf _ => blank_burn buf
    · intro ring member
      obtain ⟨before, _, rfl⟩ := List.mem_map.mp member
      exact ⟨rfl, rfl⟩

theorem clean_useStreamBuf (clean : Clean c) {i : Nat} {op : Ring.RingOp}
    (taken : Taken c (.useStreamBuf i op) t) : Clean t ↔ ¬ Fills c (.useStreamBuf i op) := by
  rcases taken_useStreamBuf.mp taken with ⟨absent, rfl⟩ | ⟨ring, after, present, stepped, rfl⟩
  · exact iff_of_true clean (by simp [Fills, absent])
  · have rule := released_step (clean.streamBufs ring (List.mem_of_getElem? present)) stepped
    have inside := (List.getElem?_eq_some_iff.mp present).1
    simp only [Fills, present, Option.some.injEq, exists_eq_left', ← rule]
    constructor
    · intro left
      exact left.streamBufs after (List.mem_set inside after)
    · intro released
      refine { clean with streamBufs := fun other member => ?_ }
      rcases List.mem_or_eq_of_mem_set member with old | rfl
      · exact clean.streamBufs other old
      · exact released

theorem clean_queuePacket (clean : Clean c) {buf : Buffer} (taken : Taken c (.queuePacket buf) t) :
    Clean t ↔ ¬ Fills c (.queuePacket buf) := by
  have left := taken_queuePacket.mp taken
  unfold ConnectionBuffers.queuePacket at left
  simp only [Fills, ConnectionBuffers.packetQueueLen]
  split_ifs at left with full heavy
  · cases left
    exact iff_of_true clean (by omega)
  · cases left
    exact iff_of_true clean (by omega)
  · cases left
    exact iff_of_false (fun still => by simpa using still.packetQueue) (by omega)

theorem clean_step (clean : Clean c) {op : ConnOp} (taken : Taken c op t) :
    Clean t ↔ ¬ Fills c op := by
  cases op with
  | initReadBuf size =>
    obtain ⟨buf, made, rfl⟩ := taken_initReadBuf.mp taken
    exact iff_of_true { clean with readBuf := wiped_some.mpr (blank_new made) } not_false
  | initWriteBuf size =>
    obtain ⟨buf, made, rfl⟩ := taken_initWriteBuf.mp taken
    exact iff_of_true { clean with writeBuf := wiped_some.mpr (blank_new made) } not_false
  | addStreamBuf size =>
    obtain ⟨ring, made, rfl⟩ := taken_addStreamBuf.mp taken
    refine iff_of_true { clean with streamBufs := fun other member => ?_ } not_false
    rcases List.mem_append.mp member with old | new
    · exact clean.streamBufs other old
    · rw [List.mem_singleton.mp new]
      exact released_new made
  | useReadBuf op =>
    obtain ⟨after, settled, rfl⟩ := taken_useReadBuf.mp taken
    rw [Fills, ← wiped_step clean.readBuf settled]
    exact ⟨fun left => left.readBuf, fun wiped => { clean with readBuf := wiped }⟩
  | useWriteBuf op =>
    obtain ⟨after, settled, rfl⟩ := taken_useWriteBuf.mp taken
    rw [Fills, ← wiped_step clean.writeBuf settled]
    exact ⟨fun left => left.writeBuf, fun wiped => { clean with writeBuf := wiped }⟩
  | useStreamBuf i op => exact clean_useStreamBuf clean taken
  | queuePacket buf => exact clean_queuePacket clean taken
  | dequeuePacket =>
    have left := taken_dequeuePacket.mp taken
    rw [ConnectionBuffers.dequeuePacket, clean.packetQueue] at left
    cases left
    exact iff_of_true clean not_false
  | reset =>
    cases taken_reset.mp taken
    refine iff_of_true ⟨?_, ?_, ?_, rfl, rfl⟩ not_false
    · exact wiped_map fun buf present => ⟨rfl, rfl, (clean.readBuf buf present).bytes⟩
    · exact wiped_map fun buf present => ⟨rfl, rfl, (clean.writeBuf buf present).bytes⟩
    · intro ring member
      obtain ⟨before, was, rfl⟩ := List.mem_map.mp member
      exact ⟨rfl, (clean.streamBufs before was).data⟩
  | burn =>
    cases taken_burn.mp taken
    exact iff_of_true (clean_burn_iff.mpr fun _ => clean) not_false

theorem flag_step {op : ConnOp} (taken : Taken c op t) : t.burned = flagAfter c op := by
  cases op with
  | initReadBuf size =>
    obtain ⟨_, _, rfl⟩ := taken_initReadBuf.mp taken
    rfl
  | initWriteBuf size =>
    obtain ⟨_, _, rfl⟩ := taken_initWriteBuf.mp taken
    rfl
  | addStreamBuf size =>
    obtain ⟨_, _, rfl⟩ := taken_addStreamBuf.mp taken
    rfl
  | useReadBuf op =>
    obtain ⟨_, _, rfl⟩ := taken_useReadBuf.mp taken
    rfl
  | useWriteBuf op =>
    obtain ⟨_, _, rfl⟩ := taken_useWriteBuf.mp taken
    rfl
  | useStreamBuf i op => obtain ⟨_, rfl⟩ | ⟨_, _, _, _, rfl⟩ := taken_useStreamBuf.mp taken <;> rfl
  | queuePacket buf =>
    have left := taken_queuePacket.mp taken
    unfold ConnectionBuffers.queuePacket at left
    split_ifs at left <;> (cases left; rfl)
  | dequeuePacket =>
    have left := taken_dequeuePacket.mp taken
    unfold ConnectionBuffers.dequeuePacket at left
    cases queue : c.packetQueue <;> (rw [queue] at left; cases left; rfl)
  | reset =>
    cases taken_reset.mp taken
    rfl
  | burn =>
    cases taken_burn.mp taken
    unfold ConnectionBuffers.burn
    split_ifs with burned
    · exact burned
    · rfl

/-- A step keeps the next burn able to clean up exactly when it is quiet. -/
theorem burnable_step (burnable : Burnable c) {op : ConnOp} (taken : Taken c op t) :
    Burnable t ↔ Quiet c op := by
  have flag := flag_step taken
  by_cases burned : c.burned = true
  · have clean := clean_step (burnable burned) taken
    have quiet : Quiet c op ↔ ¬ Fills c op := ⟨fun quiet => quiet burned, fun quiet _ => quiet⟩
    rw [quiet, ← clean]
    cases op with
    | reset =>
      exact iff_of_true (fun set => absurd (flag.symm.trans set) Bool.false_ne_true) (clean.mpr not_false)
    | _ => exact ⟨fun kept => kept (flag.trans (by first | exact burned | rfl)), fun clean _ => clean⟩
  · refine iff_of_true ?_ (fun set => absurd set burned)
    cases op with
    | burn =>
      cases taken_burn.mp taken
      intro _
      exact clean_burn_iff.mpr fun set => absurd set burned
    | reset => exact fun set => absurd (flag.symm.trans set) Bool.false_ne_true
    | _ => exact fun set => absurd (flag.symm.trans set) burned

theorem burnable_run {config : ConnectionBufferConfig}
    (run : Reaches (Guarded Quiet Taken) (.withConfig config) c) : Burnable c :=
  run.keeps (I := Burnable) (fun set => absurd set Bool.false_ne_true)
    fun _ _ _ holds ⟨quiet, taken⟩ => (burnable_step holds taken).mpr quiet

end

/-! The same through the wrapper that carries a pool along. -/

section
variable {ι : Type} {p q : PooledConnectionBuffers ι}

theorem taken_inner {op : PooledOp} (taken : PooledTaken p op q) :
    Taken p.buffers op.inner q.buffers := by
  cases op with
  | buffers op =>
    obtain ⟨c, moved, rfl⟩ := Option.map_eq_some_iff.mp taken
    exact moved
  | burnAndRelease =>
    cases taken
    exact taken_burn.mpr rfl

def PooledQuiet (p : PooledConnectionBuffers ι) (op : PooledOp) : Prop := Quiet p.buffers op.inner

theorem pooled_run {pool : ι} {config : ConnectionBufferConfig}
    (run : Reaches (Guarded PooledQuiet PooledTaken) (.withConfig pool config) p) :
    Burnable p.buffers := by
  refine run.keeps (I := fun p => Burnable p.buffers) (fun set => absurd set Bool.false_ne_true) ?_
  intro before op after holds ⟨quiet, taken⟩
  have kept := burnable_step holds (taken_inner taken)
  exact kept.mpr quiet

end

/-- In every run of a connection in which nothing is put in between a burn and the reset after
it, a burn leaves everything clean, whenever it is called; and the first step that does put
something into a burned connection leaves one that a further burn does not clean. The same of
`burn_and_release`. -/
theorem burn_leaves_clean {ι : Type} :
    (∀ config c, Reaches (Guarded Quiet Taken) (.withConfig config) c → Clean c.burn ∧
      ∀ op t, Taken c op t → ¬ Quiet c op → ¬ Clean t.burn) ∧
    ∀ (pool : ι) config p, Reaches (Guarded PooledQuiet PooledTaken) (.withConfig pool config) p →
      (Clean p.burnAndRelease.buffers ∧ p.burnAndRelease.pool = none) ∧
      ∀ op q, PooledTaken p op q → ¬ PooledQuiet p op → ¬ Clean q.burnAndRelease.buffers := by
  constructor
  · intro config c run
    have burnable := burnable_run run
    refine ⟨clean_burn_iff.mpr burnable, fun op t taken loud clean => loud ?_⟩
    exact (burnable_step burnable taken).mp (clean_burn_iff.mp clean)
  · intro pool config p run
    have burnable := pooled_run run
    refine ⟨⟨clean_burn_iff.mpr burnable, rfl⟩, fun op q taken loud clean => loud ?_⟩
    exact (burnable_step burnable (taken_inner taken)).mp (clean_burn_iff.mp clean)

def reusedAfterReset : List ConnOp :=
  [.initReadBuf 4, .useReadBuf (.putByte 0xAB), .burn, .reset, .useReadBuf (.putByte 0xCD)]

theorem burn_leaves_clean_reused :
    ∃ c, exec next .new reusedAfterReset = some c ∧
      c.readBuf.map (·.data.bytes) = some [0xCD, 0, 0, 0] ∧ Clean c.burn := by
  obtain ⟨c, script, shown⟩ : ∃ c, exec next .new reusedAfterReset = some c ∧
      c.readBuf.map (·.data.bytes) = some [0xCD, 0, 0, 0] := ⟨_, rfl, rfl⟩
  have meets : Meets next Quiet .new reusedAfterReset := by
    refine ⟨?_, ?_, ?_, ?_, ?_, trivial⟩ <;> intro set <;> first | exact not_false | cases set
  exact ⟨c, script, shown, ((@burn_leaves_clean Unit).1 .default c (.of_script script meets)).1⟩

/-- A byte put into the read buffer after a burn: the flag is set, and the next burn is silent. -/
theorem burn_leaves_byte :
    ∃ c, exec next .new [.initReadBuf 4, .burn, .useReadBuf (.putByte 0xAB)] = some c ∧
      c.burn.readBuf.map (·.data.bytes) = some [0xAB, 0, 0, 0] ∧ ¬ Clean c.burn := by
  obtain ⟨c, script, shown⟩ :
      ∃ c, exec next .new [.initReadBuf 4, .burn, .useReadBuf (.putByte 0xAB)] = some c ∧
        c.burn.readBuf.map (·.data.bytes) = some [0xAB, 0, 0, 0] := ⟨_, rfl, rfl⟩
  refine ⟨c, script, shown, fun clean => ?_⟩
  obtain ⟨buf, present, bytes⟩ := Option.map_eq_some_iff.mp shown
  have zero := (clean.readBuf buf present).bytes 0xAB (by rw [bytes]; exact List.mem_cons_self)
  exact absurd zero (by decide)

end Secbuf.ConnectionBurn
