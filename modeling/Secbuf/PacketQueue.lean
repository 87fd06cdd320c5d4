import Mathlib.Algebra.BigOperators.Group.List.Basic
import Secbuf.Connection

/-! The transmit queue. A ledger beside the connection records every packet the queue accepted
and every packet that left it; the byte counter, the two limits and the order of the packets
are one invariant of that ledger. -/

namespace Secbuf.PacketQueue
open Calls Storage BufferCore Connection ConnectionBuffers

inductive Fate where
  | dequeued
  | discarded
  deriving DecidableEq, Repr

structure History where
  conn : ConnectionBuffers
  accepted : List Buffer
  departed : List (Buffer × Fate)

def History.start (config : ConnectionBufferConfig) : History := ⟨.withConfig config, [], []⟩

def queuedBytes (queue : List Buffer) : Nat := (queue.map Buffer.len).sum

def entering (c : ConnectionBuffers) : ConnOp → List Buffer
  | .queuePacket buf =>
    match queuePacket buf c with
    | .ok _ _ => [buf]
    | _ => []
  | _ => []

def leaving (c : ConnectionBuffers) : ConnOp → List (Buffer × Fate)
  | .dequeuePacket =>
    match dequeuePacket c with
    | .ok (some buf) _ => [(buf, .dequeued)]
    | _ => []
  | .reset => c.packetQueue.map (·, .discarded)
  | .burn => if c.burned then [] else c.packetQueue.map (·, .discarded)
  | _ => []

def History.next (h : History) (op : ConnOp) : Option History :=
  (Connection.next h.conn op).map fun conn =>
    ⟨conn, h.accepted ++ entering h.conn op, h.departed ++ leaving h.conn op⟩

/-- The queued bytes still count in a `usize` with the offered packet among them. -/
def Representable (h : History) : ConnOp → Prop
  | .queuePacket buf => queuedBytes h.conn.packetQueue + buf.len < 2 ^ 64
  | _ => True

/-- The books of a queue: the counter is exact, both limits hold, and what was accepted is what
has left, in that order, followed by what is still there. -/
structure Ledger (config : ConnectionBufferConfig) (h : History) : Prop where
  limits : h.conn.config = config
  counter : h.conn.packetQueueBytes = queuedBytes h.conn.packetQueue
  count_le : h.conn.packetQueueLen ≤ config.maxPacketQueueSize
  bytes_le : h.conn.packetQueueBytes ≤ config.maxPacketQueueBytes
  order : h.accepted = h.departed.map Prod.fst ++ h.conn.packetQueue

section
variable {config : ConnectionBufferConfig} {h g : History}

theorem queuePacket_spec {c : ConnectionBuffers} {buf : Buffer}
    (fits : c.packetQueueBytes + buf.len < 2 ^ 64) :
    queuePacket buf c =
      if c.packetQueueLen + 1 ≤ c.config.maxPacketQueueSize then
        if c.packetQueueBytes + buf.len ≤ c.config.maxPacketQueueBytes then
          .ok () { c with
            packetQueue := c.packetQueue ++ [buf]
            packetQueueBytes := c.packetQueueBytes + buf.len }
        else .err .tooManyBytes c
      else .err .tooManyPackets c := by
  unfold queuePacket packetQueueLen
  rw [usizeAdd_of_lt fits]
  by_cases room : c.packetQueue.length + 1 ≤ c.config.maxPacketQueueSize
  · rw [if_neg (by omega), if_pos room]
    by_cases light : c.packetQueueBytes + buf.len ≤ c.config.maxPacketQueueBytes
    · rw [if_neg (by omega), if_pos light]
    · rw [if_pos (by omega), if_neg light]
  · rw [if_pos (by omega), if_neg room]

/-- `dequeue_packet` takes the head, and the exact counter makes its subtraction exact. -/
theorem dequeuePacket_spec {c : ConnectionBuffers}
    (counter : c.packetQueueBytes = queuedBytes c.packetQueue) :
    dequeuePacket c = .ok c.packetQueue.head? { c with
      packetQueue := c.packetQueue.tail
      packetQueueBytes := queuedBytes c.packetQueue.tail } := by
  unfold dequeuePacket
  cases queue : c.packetQueue with
  | nil =>
    obtain ⟨_, _, _, _, _, _, _⟩ := c
    cases queue
    cases counter
    rfl
  | cons buf rest =>
    simp only [List.head?_cons, List.tail_cons, counter, queue, queuedBytes, List.map_cons,
      List.sum_cons, Nat.add_sub_cancel_left]

theorem ledger_start (config : ConnectionBufferConfig) : Ledger config (History.start config) where
  limits := rfl
  counter := rfl
  count_le := Nat.zero_le _
  bytes_le := Nat.zero_le _
  order := rfl

theorem Ledger.aside (ledger : Ledger config h) {c : ConnectionBuffers}
    (same : c.config = h.conn.config) (queue : c.packetQueue = h.conn.packetQueue)
    (counter : c.packetQueueBytes = h.conn.packetQueueBytes) :
    Ledger config ⟨c, h.accepted ++ [], h.departed ++ []⟩ where
  limits := same.trans ledger.limits
  counter := by rw [counter, queue]; exact ledger.counter
  count_le := by rw [packetQueueLen, queue]; exact ledger.count_le
  bytes_le := by rw [counter]; exact ledger.bytes_le
  order := by simp only [List.append_nil, queue, ledger.order]

theorem Ledger.emptied (ledger : Ledger config h) {c : ConnectionBuffers}
    (same : c.config = h.conn.config) (queue : c.packetQueue = []) (zero : c.packetQueueBytes = 0) :
    Ledger config ⟨c, h.accepted ++ [],
      h.departed ++ h.conn.packetQueue.map (·, .discarded)⟩ where
  limits := same.trans ledger.limits
  counter := by rw [zero, queue]; rfl
  count_le := by rw [packetQueueLen, queue]; exact Nat.zero_le _
  bytes_le := by rw [zero]; exact Nat.zero_le _
  order := by
    simp only [List.append_nil, queue, List.map_append, List.map_map, Function.comp_def,
      List.map_id', ledger.order]

theorem Ledger.queued (ledger : Ledger config h) {buf : Buffer} {c : ConnectionBuffers}
    (fits : queuedBytes h.conn.packetQueue + buf.len < 2 ^ 64)
    (taken : (queuePacket buf h.conn).state? = some c) :
    Ledger config ⟨c, h.accepted ++ entering h.conn (.queuePacket buf), h.departed ++ []⟩ := by
  rw [← ledger.counter] at fits
  have rule := queuePacket_spec fits
  simp only [entering]
  split_ifs at rule with room light
  · rw [rule] at taken ⊢
    cases taken
    rw [ledger.limits] at room light
    refine ⟨ledger.limits, ?_, ?_, light, ?_⟩
    · simp only [ledger.counter, queuedBytes, List.map_append, List.sum_append, List.map_cons,
        List.map_nil, List.sum_singleton]
    · simpa only [packetQueueLen, List.length_append, List.length_singleton] using room
    · simp only [ledger.order, List.append_nil, List.append_assoc]
  · rw [rule] at taken ⊢
    cases taken
    exact ledger.aside rfl rfl rfl
  · rw [rule] at taken ⊢
    cases taken
    exact ledger.aside rfl rfl rfl

theorem Ledger.dequeued (ledger : Ledger config h) {c : ConnectionBuffers}
    (taken : (dequeuePacket h.conn).state? = some c) :
    Ledger config ⟨c, h.accepted ++ [], h.departed ++ leaving h.conn .dequeuePacket⟩ := by
  have rule := dequeuePacket_spec ledger.counter
  have counter := ledger.counter
  have count := ledger.count_le
  have bytes := ledger.bytes_le
  have order := ledger.order
  simp only [leaving]
  rw [rule] at taken ⊢
  cases taken
  cases queue : h.conn.packetQueue with
  | nil =>
    rw [queue] at order
    exact ⟨ledger.limits, rfl, Nat.zero_le _, Nat.zero_le _, by simpa using order⟩
  | cons buf rest =>
    simp only [packetQueueLen, queue, List.length_cons] at count
    simp only [counter, queue, queuedBytes, List.map_cons, List.sum_cons] at bytes
    rw [queue] at order
    refine ⟨ledger.limits, rfl, ?_, ?_, ?_⟩
    · simp only [packetQueueLen, List.tail_cons]
      omega
    · simp only [List.tail_cons, queuedBytes]
      omega
    · simp only [List.append_nil, List.head?_cons, List.tail_cons, List.map_append, List.map_cons,
        List.map_nil, List.append_assoc, List.singleton_append, order]

theorem ledger_next {op : ConnOp} (ledger : Ledger config h) (fits : Representable h op)
    (taken : h.next op = some g) : Ledger config g := by
  obtain ⟨c, moved, rfl⟩ := Option.map_eq_some_iff.mp taken
  cases op with
  | initReadBuf size =>
    obtain ⟨_, _, rfl⟩ := taken_initReadBuf.mp moved
    exact ledger.aside rfl rfl rfl
  | initWriteBuf size =>
    obtain ⟨_, _, rfl⟩ := taken_initWriteBuf.mp moved
    exact ledger.aside rfl rfl rfl
  | addStreamBuf size =>
    obtain ⟨_, _, rfl⟩ := taken_addStreamBuf.mp moved
    exact ledger.aside rfl rfl rfl
  | useReadBuf op =>
    obtain ⟨_, _, rfl⟩ := taken_useReadBuf.mp moved
    exact ledger.aside rfl rfl rfl
  | useWriteBuf op =>
    obtain ⟨_, _, rfl⟩ := taken_useWriteBuf.mp moved
    exact ledger.aside rfl rfl rfl
  | useStreamBuf i op =>
    obtain ⟨_, rfl⟩ | ⟨_, _, _, _, rfl⟩ := taken_useStreamBuf.mp moved <;>
      exact ledger.aside rfl rfl rfl
  | queuePacket buf => exact ledger.queued fits (taken_queuePacket.mp moved)
  | dequeuePacket => exact ledger.dequeued (taken_dequeuePacket.mp moved)
  | reset =>
    cases taken_reset.mp moved
    exact ledger.emptied rfl rfl rfl
  | burn =>
    cases taken_burn.mp moved
    simp only [leaving, burn]
    split_ifs with burned
    · exact ledger.aside rfl rfl rfl
    · exact ledger.emptied rfl rfl rfl

/-- In every run of a connection, with any buffers offered: the byte counter is the sum of the
queued lengths, both limits hold, and the packets accepted so far are those that have left,
dequeued or discarded, in the order they left, followed by the queue. `queue_packet` accepts
exactly when both limits hold with the packet counted in, and changes nothing otherwise;
`dequeue_packet` answers with the oldest packet. -/
theorem packet_queue_ledger {config : ConnectionBufferConfig} {h : History}
    (run : Reaches (Guarded Representable fun h op g => h.next op = some g)
      (History.start config) h) :
    h.conn.packetQueueBytes = (h.conn.packetQueue.map Buffer.len).sum ∧
    h.conn.packetQueueLen ≤ config.maxPacketQueueSize ∧
    h.conn.packetQueueBytes ≤ config.maxPacketQueueBytes ∧
    h.accepted = h.departed.map Prod.fst ++ h.conn.packetQueue ∧
    (∀ buf : Buffer, h.conn.packetQueueBytes + buf.len < 2 ^ 64 →
      queuePacket buf h.conn =
        if h.conn.packetQueueLen + 1 ≤ config.maxPacketQueueSize then
          if h.conn.packetQueueBytes + buf.len ≤ config.maxPacketQueueBytes then
            .ok () { h.conn with
              packetQueue := h.conn.packetQueue ++ [buf]
              packetQueueBytes := h.conn.packetQueueBytes + buf.len }
          else .err .tooManyBytes h.conn
        else .err .tooManyPackets h.conn) ∧
    dequeuePacket h.conn = .ok h.conn.packetQueue.head? { h.conn with
      packetQueue := h.conn.packetQueue.tail
      packetQueueBytes := (h.conn.packetQueue.tail.map Buffer.len).sum } := by
  have ledger : Ledger config h := run.keeps (ledger_start config)
    fun _ _ _ holds ⟨fits, taken⟩ => ledger_next holds fits taken
  obtain rfl := ledger.limits
  exact ⟨ledger.counter, ledger.count_le, ledger.bytes_le, ledger.order,
    fun _ fits => queuePacket_spec fits, dequeuePacket_spec ledger.counter⟩

def twoPackets : ConnectionBufferConfig := ⟨2, 6⟩

def three : Buffer := .fromVec ⟨[1, 2, 3], [], [], by decide⟩
def two : Buffer := .fromVec ⟨[4, 5], [], [], by decide⟩
def five : Buffer := .fromVec ⟨[6, 7, 8, 9, 10], [], [], by decide⟩

theorem packet_queue_ledger_two :
    ∃ h, exec History.next (History.start twoPackets) [.queuePacket three, .queuePacket two,
        .queuePacket five, .dequeuePacket, .queuePacket five] = some h ∧
      h.departed = [(three, .dequeued)] ∧ h.conn.packetQueue = [two] ∧
      h.conn.packetQueueBytes = (h.conn.packetQueue.map Buffer.len).sum ∧
      h.conn.packetQueueLen ≤ 2 ∧ h.conn.packetQueueBytes ≤ 6 ∧
      h.accepted = h.departed.map Prod.fst ++ h.conn.packetQueue := by
  obtain ⟨h, script, out, left⟩ : ∃ h,
      exec History.next (History.start twoPackets) [.queuePacket three, .queuePacket two,
        .queuePacket five, .dequeuePacket, .queuePacket five] = some h ∧
      h.departed = [(three, .dequeued)] ∧ h.conn.packetQueue = [two] := ⟨_, rfl, rfl, rfl⟩
  have meets : Meets History.next Representable (History.start twoPackets)
      [.queuePacket three, .queuePacket two, .queuePacket five, .dequeuePacket,
        .queuePacket five] := by
    refine ⟨?_, ?_, ?_, trivial, ?_, trivial⟩ <;> simp only [Representable] <;> decide
  obtain ⟨counter, count, bytes, order, -⟩ := packet_queue_ledger (.of_script script meets)
  exact ⟨h, script, out, left, counter, count, bytes, order⟩

end

end Secbuf.PacketQueue
