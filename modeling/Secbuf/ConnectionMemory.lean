import Secbuf.ConnectionFaults
import Secbuf.PacketQueue

/-! What `memory_usage` says against what a connection has on the heap. A ring is counted with its
size, though it has no storage before the first write, after `free` and after `burn`; a packet is
counted with its length, though its block may be larger. -/

namespace Secbuf.ConnectionMemory
open Calls Storage BufferCore BufferScript Secbuf.Ring RingCursors
open Connection ConnectionBuffers ConnectionFaults PacketQueue

def stored (r : CircularBuffer) : Nat := (r.data.map List.length).getD 0

def bare (r : CircularBuffer) : Nat := if r.data.isSome then 0 else r.size

def reserved (field : Option Buffer) : Nat := (field.map Buffer.capacity).getD 0

/-- The byte storage of a connection: the blocks of its buffers, rings and packets, and not the arrays
that hold the list of rings and the queue of packets. -/
def blocks (c : ConnectionBuffers) : Nat :=
  reserved c.readBuf + reserved c.writeBuf + (c.streamBufs.map stored).sum +
    (c.packetQueue.map Buffer.capacity).sum

def unstored (c : ConnectionBuffers) : Nat := (c.streamBufs.map bare).sum

/-- The parts of the packets' blocks behind their lengths. -/
def slack (c : ConnectionBuffers) : Nat := (c.packetQueue.map fun buf => buf.capacity - buf.len).sum

/-- A packet offered is a buffer that safe calls made, and the queued bytes still count in a `usize`
with it. -/
def Offered (c : ConnectionBuffers) : ConnOp → Prop
  | .queuePacket buf => ReachableWrapping buf ∧ queuedBytes c.packetQueue + buf.len < 2 ^ 64
  | _ => True

def adds : ConnOp → Nat
  | .addStreamBuf size => size
  | _ => 0

structure Booked (added : Nat) (c : ConnectionBuffers) : Prop where
  healthy : Healthy c
  packets : ∀ buf ∈ c.packetQueue, Valid buf
  counter : c.packetQueueBytes = queuedBytes c.packetQueue
  sizes : (c.streamBufs.map CircularBuffer.size).sum = added

theorem stored_bare {size : Nat} {r : CircularBuffer} (sound : Sound size r) :
    stored r + bare r = r.size := by
  unfold stored bare
  cases data : r.data with
  | none => simp
  | some buffer => simp [sound.length_eq buffer data, sound.size_eq]

theorem slack_len {b : Buffer} (valid : Valid b) : b.len + (b.capacity - b.len) = b.capacity := by
  have inside := valid.len_le
  have within : b.data.len ≤ b.data.capacity := Nat.le_add_right _ _
  unfold Buffer.capacity
  omega

/-- A sum that wraps at every step wraps once. -/
theorem foldl_usizeAdd (sizes : List Nat) (n : Nat) :
    sizes.foldl usizeAdd (n % 2 ^ 64) = (n + sizes.sum) % 2 ^ 64 := by
  induction sizes generalizing n with
  | nil => rfl
  | cons size rest ih =>
    have step : usizeAdd (n % 2 ^ 64) size = (n + size) % 2 ^ 64 := Nat.mod_add_mod _ _ _
    rw [List.foldl_cons, step, ih, List.sum_cons, Nat.add_assoc]

theorem sum_pairs {α : Type} {items : List α} {f g h : α → Nat} (each : ∀ x ∈ items, f x + g x = h x) :
    (items.map f).sum + (items.map g).sum = (items.map h).sum := by
  rw [← List.sum_map_add]
  exact congrArg List.sum (List.map_congr_left each)

section
variable {c t : ConnectionBuffers} {added : Nat}

/-- The two sides of the books: what is counted, and what is there. -/
theorem balance (booked : Booked added c) :
    reserved c.readBuf + reserved c.writeBuf + added + c.packetQueueBytes + slack c =
      blocks c + unstored c := by
  have rings : (c.streamBufs.map stored).sum + unstored c = (c.streamBufs.map CircularBuffer.size).sum :=
    sum_pairs fun r member => stored_bare (booked.healthy.streamBufs r member)
  have queue : queuedBytes c.packetQueue + slack c = (c.packetQueue.map Buffer.capacity).sum :=
    sum_pairs fun buf member => slack_len (booked.packets buf member)
  rw [booked.sizes] at rings
  rw [booked.counter, blocks]
  omega

theorem usage_exact (booked : Booked added c) (small : blocks c + unstored c < 2 ^ 64) :
    c.memoryUsage.streamBufBytes = added ∧
      c.memoryUsage.totalBytes = reserved c.readBuf + reserved c.writeBuf + added + c.packetQueueBytes := by
  have balanced := balance booked
  have streams : (c.streamBufs.map CircularBuffer.size).foldl usizeAdd 0 = added := by
    have wrapped := foldl_usizeAdd (c.streamBufs.map CircularBuffer.size) 0
    rw [booked.sizes, Nat.zero_add] at wrapped
    exact wrapped.trans (Nat.mod_eq_of_lt (by omega))
  refine ⟨streams, ?_⟩
  simp only [memoryUsage, streams]
  change usizeAdd (usizeAdd (usizeAdd (reserved c.readBuf) (reserved c.writeBuf)) added) _ = _
  rw [usizeAdd_of_lt (by omega : reserved c.readBuf + reserved c.writeBuf < 2 ^ 64),
    usizeAdd_of_lt (by omega : reserved c.readBuf + reserved c.writeBuf + added < 2 ^ 64),
    usizeAdd_of_lt (by omega)]

theorem booked_start (config : ConnectionBufferConfig) : Booked 0 (.withConfig config) :=
  ⟨healthy_start config, nofun, rfl, rfl⟩

theorem Booked.aside (booked : Booked added c) (healthy : Healthy t)
    (queue : t.packetQueue = c.packetQueue) (counter : t.packetQueueBytes = c.packetQueueBytes)
    (rings : t.streamBufs = c.streamBufs) : Booked added t :=
  ⟨healthy, queue ▸ booked.packets, by rw [counter, queue]; exact booked.counter, rings ▸ booked.sizes⟩

theorem Booked.emptied (booked : Booked added c) (healthy : Healthy t) (queue : t.packetQueue = [])
    (zero : t.packetQueueBytes = 0) (change : CircularBuffer → CircularBuffer)
    (keeps : ∀ r, (change r).size = r.size) (rings : t.streamBufs = c.streamBufs.map change) :
    Booked added t := by
  refine ⟨healthy, queue ▸ nofun, by rw [zero, queue]; rfl, ?_⟩
  have same : CircularBuffer.size ∘ change = CircularBuffer.size := funext keeps
  rw [rings, List.map_map, same]
  exact booked.sizes

theorem size_step {r after : CircularBuffer} {op : RingOp} {size : Nat} (sound : Sound size r)
    (stepped : Stepped r op after) : after.size = r.size :=
  (sound_step sound stepped).size_eq.trans sound.size_eq.symm

theorem sizes_set {rings : List CircularBuffer} {i : Nat} {ring after : CircularBuffer}
    (there : rings[i]? = some ring) (same : after.size = ring.size) :
    (rings.set i after).map CircularBuffer.size = rings.map CircularBuffer.size := by
  obtain ⟨inside, rfl⟩ := List.getElem?_eq_some_iff.mp there
  rw [List.map_set, same, ← List.map_set, List.set_getElem_self]

theorem booked_step (booked : Booked added c) {op : ConnOp} (offered : Offered c op)
    (taken : Taken c op t) : Booked (added + adds op) t := by
  have healthy := healthy_step booked.healthy taken
  cases op with
  | initReadBuf size =>
    obtain ⟨_, _, rfl⟩ := taken_initReadBuf.mp taken
    exact booked.aside healthy rfl rfl rfl
  | initWriteBuf size =>
    obtain ⟨_, _, rfl⟩ := taken_initWriteBuf.mp taken
    exact booked.aside healthy rfl rfl rfl
  | addStreamBuf size =>
    obtain ⟨ring, made, rfl⟩ := taken_addStreamBuf.mp taken
    refine ⟨healthy, booked.packets, booked.counter, ?_⟩
    simp [booked.sizes, adds, (sound_new made).size_eq]
  | useReadBuf op =>
    obtain ⟨_, _, rfl⟩ := taken_useReadBuf.mp taken
    exact booked.aside healthy rfl rfl rfl
  | useWriteBuf op =>
    obtain ⟨_, _, rfl⟩ := taken_useWriteBuf.mp taken
    exact booked.aside healthy rfl rfl rfl
  | useStreamBuf i op =>
    rcases taken_useStreamBuf.mp taken with ⟨_, rfl⟩ | ⟨ring, after, there, stepped, rfl⟩
    · exact booked
    · refine ⟨healthy, booked.packets, booked.counter, ?_⟩
      have same := size_step (booked.healthy.streamBufs ring (List.mem_of_getElem? there)) stepped
      exact (congrArg List.sum (sizes_set there same)).trans booked.sizes
  | queuePacket buf =>
    have left := taken_queuePacket.mp taken
    rw [queuePacket_spec (booked.counter ▸ offered.2)] at left
    split_ifs at left with room light
    · cases left
      refine ⟨healthy, fun other member => ?_, ?_, booked.sizes⟩
      · rcases List.mem_append.mp member with old | new
        · exact booked.packets other old
        · exact List.mem_singleton.mp new ▸ offered.1.valid
      · simp [booked.counter, queuedBytes]
    · cases left
      exact booked
    · cases left
      exact booked
  | dequeuePacket =>
    have left := taken_dequeuePacket.mp taken
    rw [dequeuePacket_spec booked.counter] at left
    cases left
    exact ⟨healthy, fun other member => booked.packets other (List.mem_of_mem_tail member), rfl,
      booked.sizes⟩
  | reset =>
    cases taken_reset.mp taken
    exact booked.emptied healthy rfl rfl CircularBuffer.clear (fun _ => rfl) rfl
  | burn =>
    cases taken_burn.mp taken
    unfold burn at healthy ⊢
    split_ifs at healthy ⊢ with burned
    · exact booked
    · exact booked.emptied healthy rfl rfl CircularBuffer.free (fun _ => rfl) rfl

theorem booked_exec {ops : List ConnOp} (booked : Booked added c) (script : exec next c ops = some t)
    (meets : Meets next Offered c ops) : Booked (added + (ops.map adds).sum) t := by
  induction ops generalizing added c with
  | nil =>
    cases script
    exact booked
  | cons op rest ih =>
    simp only [exec, Option.bind_eq_some_iff] at script
    obtain ⟨middle, taken, later⟩ := script
    obtain ⟨here, onward⟩ := meets
    simp only [taken] at onward
    rw [List.map_cons, List.sum_cons, ← Nat.add_assoc]
    exact ih (booked_step booked here taken) later onward

theorem capacity_burn (b : Buffer) : b.burn.capacity = b.capacity := by
  simp [Buffer.capacity, Buffer.burn, ByteVec.capacity, ByteVec.zeroizeSlice, ByteVec.zeros, ByteVec.len]

theorem reserved_burn (field : Option Buffer) : reserved (field.map Buffer.burn) = reserved field := by
  cases field with
  | none => rfl
  | some buf => exact capacity_burn buf

theorem blocks_burn (fresh : c.burned = false) :
    blocks c.burn = reserved c.readBuf + reserved c.writeBuf := by
  have freed (rings : List CircularBuffer) : (rings.map (stored ∘ CircularBuffer.free)).sum = 0 :=
    List.sum_eq_zero (by simp [stored, CircularBuffer.free, CircularBuffer.clear])
  simp [blocks, burn, fresh, reserved_burn, freed]

/-- After any calls, the rings count as what `add_stream_buf` was given, written to or not, freed or
not; the total is short of the heap by the parts of the packets' blocks behind their lengths and
ahead of it by the rings without storage. A burn gives back every block but the two buffers', and
the total goes on counting all the rings. -/
theorem memory_usage_balance {config : ConnectionBufferConfig} {ops : List ConnOp}
    (script : exec next (.withConfig config) ops = some c)
    (meets : Meets next Offered (.withConfig config) ops) (small : blocks c + unstored c < 2 ^ 64) :
    c.memoryUsage.streamBufBytes = (ops.map adds).sum ∧
    c.memoryUsage.packetQueueBytes = queuedBytes c.packetQueue ∧
    c.memoryUsage.totalBytes + slack c = blocks c + unstored c ∧
    (c.burned = false →
      blocks c.burn = c.memoryUsage.readBufBytes + c.memoryUsage.writeBufBytes ∧
      c.burn.memoryUsage.totalBytes = blocks c.burn + c.memoryUsage.streamBufBytes) := by
  have booked := booked_exec (booked_start config) script meets
  rw [Nat.zero_add] at booked
  obtain ⟨streams, total⟩ := usage_exact booked small
  refine ⟨streams, booked.counter, ?_, fun fresh => ?_⟩
  · rw [total]
    exact balance booked
  · have after : Booked ((ops.map adds).sum + adds .burn) c.burn :=
      booked_step booked (show Offered c .burn from trivial) (taken_burn.mpr rfl)
    have before := balance booked
    have balanced := balance after
    have left := blocks_burn fresh
    have zero : c.burn.packetQueueBytes = 0 := by simp [burn, fresh]
    have none : slack c.burn = 0 := by simp [slack, burn, fresh]
    have kept : reserved c.burn.readBuf + reserved c.burn.writeBuf =
        reserved c.readBuf + reserved c.writeBuf := by
      simp [burn, fresh, reserved_burn]
    have counted := (usage_exact after (by simp only [adds] at balanced; omega)).2
    refine ⟨left, ?_⟩
    rw [counted, streams, left, kept, zero]
    rfl

end

def threeOfFour : Buffer := ⟨⟨[1, 2, 3, 0], [], [], by decide⟩, 3, 3⟩

def twoRings : List ConnOp :=
  [.initReadBuf 4, .addStreamBuf 8, .addStreamBuf 16, .useStreamBuf 0 (.write [1, 2, 3]),
    .queuePacket threeOfFour]

theorem memory_usage_balance_rings :
    ∃ c, exec next .new twoRings = some c ∧ c.memoryUsage = ⟨4, 0, 24, 3, 31⟩ ∧ blocks c = 16 ∧
      c.memoryUsage.totalBytes + slack c = blocks c + unstored c ∧
      c.burn.memoryUsage.totalBytes = blocks c.burn + c.memoryUsage.streamBufBytes := by
  obtain ⟨c, script, usage, heap, bare, fresh⟩ : ∃ c, exec next .new twoRings = some c ∧
      c.memoryUsage = ⟨4, 0, 24, 3, 31⟩ ∧ blocks c = 16 ∧ unstored c = 16 ∧ c.burned = false :=
    ⟨_, rfl, rfl, rfl, rfl, rfl⟩
  have made : ∃ start, Buffer.new 4 = .ok start ∧
      exec (fun b op => (BufferScript.step op b).state?) start [.putBytes ⟨[1, 2, 3], by decide⟩] =
        some threeOfFour := ⟨_, rfl, rfl⟩
  obtain ⟨start, first, filled⟩ := made
  have meets : Meets next Offered .new twoRings :=
    ⟨trivial, trivial, trivial, trivial, ⟨.of_exec (.new first) filled, by decide⟩, trivial⟩
  obtain ⟨-, -, balanced, burned⟩ := memory_usage_balance script meets (by omega)
  exact ⟨c, script, usage, heap, balanced, (burned fresh).2⟩

end Secbuf.ConnectionMemory
