import Secbuf.BufferScript
import Secbuf.Ring

/-! The buffers of one connection: one to read into, one to write from, the stream rings, and
the transmit queue with its two limits. A flag lets `burn` do its work once. -/

namespace Secbuf.Connection
open Calls Storage BufferCore BufferScript Secbuf.Ring

structure ConnectionBufferConfig where
  maxPacketQueueSize : Nat
  maxPacketQueueBytes : Nat
  deriving DecidableEq, Repr

def ConnectionBufferConfig.default : ConnectionBufferConfig where
  maxPacketQueueSize := 100
  maxPacketQueueBytes := 10485760

@[ext] structure ConnectionBuffers where
  readBuf : Option Buffer
  writeBuf : Option Buffer
  streamBufs : List CircularBuffer
  packetQueue : List Buffer
  config : ConnectionBufferConfig
  packetQueueBytes : Nat
  burned : Bool
  deriving DecidableEq

inductive QueueFullError where
  | tooManyPackets
  | tooManyBytes
  deriving DecidableEq, Repr

structure ConnectionMemoryStats where
  readBufBytes : Nat
  writeBufBytes : Nat
  streamBufBytes : Nat
  packetQueueBytes : Nat
  totalBytes : Nat
  deriving DecidableEq, Repr

abbrev ConnM := Call ConnectionBuffers QueueFullError

/-- What a call on an object the connection holds leaves in its place, error or not. -/
def settle {σ ε α : Type} : Outcome σ ε α → Except Fault σ
  | .ok _ t | .err _ t => .ok t
  | .fault reason => .error reason

def settlePresent {σ ε α : Type} (call : Call σ ε α) : Option σ → Except Fault (Option σ)
  | none => .ok none
  | some s => do
    let after ← settle (call s)
    .ok (some after)

namespace ConnectionBuffers

def withConfig (config : ConnectionBufferConfig) : ConnectionBuffers where
  readBuf := none
  writeBuf := none
  streamBufs := []
  packetQueue := []
  config := config
  packetQueueBytes := 0
  burned := false

def new : ConnectionBuffers := withConfig .default

def initReadBuf (size : Nat) : ConnM Unit := Call.attempt fun c => do
  let buf ← Buffer.new size
  .ok ((), { c with readBuf := some buf })

def initWriteBuf (size : Nat) : ConnM Unit := Call.attempt fun c => do
  let buf ← Buffer.new size
  .ok ((), { c with writeBuf := some buf })

def addStreamBuf (size : Nat) : ConnM Unit := Call.attempt fun c => do
  let buf ← CircularBuffer.new size
  .ok ((), { c with streamBufs := c.streamBufs ++ [buf] })

def useReadBuf (op : BufferOp) : ConnM Unit := Call.attempt fun c => do
  let after ← settlePresent (BufferScript.step op) c.readBuf
  .ok ((), { c with readBuf := after })

def useWriteBuf (op : BufferOp) : ConnM Unit := Call.attempt fun c => do
  let after ← settlePresent (BufferScript.step op) c.writeBuf
  .ok ((), { c with writeBuf := after })

def useStreamBuf (i : Nat) (op : RingOp) : ConnM Unit := fun c =>
  match c.streamBufs[i]? with
  | none => .ok () c
  | some buf =>
    Call.attempt (fun c => do
      let after ← settle (Ring.step op buf)
      .ok ((), { c with streamBufs := c.streamBufs.set i after })) c

def queuePacket (buf : Buffer) : ConnM Unit := fun c =>
  if c.packetQueue.length ≥ c.config.maxPacketQueueSize then .err .tooManyPackets c
  else if usizeAdd c.packetQueueBytes buf.len > c.config.maxPacketQueueBytes then
    .err .tooManyBytes c
  else
    .ok () { c with
      packetQueueBytes := usizeAdd c.packetQueueBytes buf.len
      packetQueue := c.packetQueue ++ [buf] }

/-- The counter goes down by `saturating_sub`. -/
def dequeuePacket : ConnM (Option Buffer) := fun c =>
  match c.packetQueue with
  | [] => .ok none c
  | buf :: rest =>
    .ok (some buf) { c with
      packetQueue := rest
      packetQueueBytes := c.packetQueueBytes - buf.len }

def packetQueueLen (c : ConnectionBuffers) : Nat := c.packetQueue.length

def isQueueNearFull (c : ConnectionBuffers) : Bool :=
  decide (c.packetQueue.length > usizeMul c.config.maxPacketQueueSize 80 / 100) ||
    decide (c.packetQueueBytes > usizeMul c.config.maxPacketQueueBytes 80 / 100)

def reset (c : ConnectionBuffers) : ConnectionBuffers where
  readBuf := c.readBuf.map Buffer.reset
  writeBuf := c.writeBuf.map Buffer.reset
  streamBufs := c.streamBufs.map CircularBuffer.clear
  packetQueue := []
  config := c.config
  packetQueueBytes := 0
  burned := false

/-- Every queued packet is popped, burned and dropped; only the first call does any of this. -/
def burn (c : ConnectionBuffers) : ConnectionBuffers :=
  if c.burned then c
  else
    { c with
      readBuf := c.readBuf.map Buffer.burn
      writeBuf := c.writeBuf.map Buffer.burn
      streamBufs := c.streamBufs.map CircularBuffer.free
      packetQueue := []
      packetQueueBytes := 0
      burned := true }

/-- The sums wrap. -/
def memoryUsage (c : ConnectionBuffers) : ConnectionMemoryStats :=
  let readBufBytes := (c.readBuf.map Buffer.capacity).getD 0
  let writeBufBytes := (c.writeBuf.map Buffer.capacity).getD 0
  let streamBufBytes := (c.streamBufs.map CircularBuffer.size).foldl usizeAdd 0
  { readBufBytes := readBufBytes
    writeBufBytes := writeBufBytes
    streamBufBytes := streamBufBytes
    packetQueueBytes := c.packetQueueBytes
    totalBytes := usizeAdd (usizeAdd (usizeAdd readBufBytes writeBufBytes) streamBufBytes)
      c.packetQueueBytes }

end ConnectionBuffers

/-! The operations of a connection as one language. -/

inductive ConnOp where
  | initReadBuf (size : Nat)
  | initWriteBuf (size : Nat)
  | addStreamBuf (size : Nat)
  | useReadBuf (op : BufferOp)
  | useWriteBuf (op : BufferOp)
  | useStreamBuf (i : Nat) (op : RingOp)
  | queuePacket (buf : Buffer)
  | dequeuePacket
  | reset
  | burn
  deriving DecidableEq

inductive ConnReply where
  | unit
  | packet (answer : Option Buffer)
  deriving DecidableEq

open ConnectionBuffers in
def step : ConnOp → ConnM ConnReply
  | .initReadBuf size => (initReadBuf size).map fun _ => .unit
  | .initWriteBuf size => (initWriteBuf size).map fun _ => .unit
  | .addStreamBuf size => (addStreamBuf size).map fun _ => .unit
  | .useReadBuf op => (useReadBuf op).map fun _ => .unit
  | .useWriteBuf op => (useWriteBuf op).map fun _ => .unit
  | .useStreamBuf i op => (useStreamBuf i op).map fun _ => .unit
  | .queuePacket buf => (queuePacket buf).map fun _ => .unit
  | .dequeuePacket => dequeuePacket.map .packet
  | .reset => (Call.modify reset).map fun _ => .unit
  | .burn => (Call.modify burn).map fun _ => .unit

def next (c : ConnectionBuffers) (op : ConnOp) : Option ConnectionBuffers := (step op c).state?

def Taken (c : ConnectionBuffers) (op : ConnOp) (t : ConnectionBuffers) : Prop :=
  next c op = some t

/-! The same buffers together with a reference to a pool, `ι` naming the pools. -/

structure PooledConnectionBuffers (ι : Type) where
  buffers : ConnectionBuffers
  pool : Option ι

namespace PooledConnectionBuffers
variable {ι : Type}

def withConfig (pool : ι) (config : ConnectionBufferConfig) : PooledConnectionBuffers ι :=
  ⟨.withConfig config, some pool⟩

def new (pool : ι) : PooledConnectionBuffers ι := ⟨.new, some pool⟩

def burnAndRelease (p : PooledConnectionBuffers ι) : PooledConnectionBuffers ι :=
  ⟨p.buffers.burn, none⟩

end PooledConnectionBuffers

inductive PooledOp where
  /-- An operation through `buffers()`. -/
  | buffers (op : ConnOp)
  | burnAndRelease
  deriving DecidableEq

def PooledConnectionBuffers.next {ι : Type} (p : PooledConnectionBuffers ι) :
    PooledOp → Option (PooledConnectionBuffers ι)
  | .buffers op => (Connection.next p.buffers op).map fun c => ⟨c, p.pool⟩
  | .burnAndRelease => some p.burnAndRelease

def PooledTaken {ι : Type} (p : PooledConnectionBuffers ι) (op : PooledOp)
    (q : PooledConnectionBuffers ι) : Prop := p.next op = some q

def PooledOp.inner : PooledOp → ConnOp
  | .buffers op => op
  | .burnAndRelease => .burn

/-! What one step can do. -/

theorem settle_ok {σ ε α : Type} {outcome : Outcome σ ε α} {t : σ} :
    settle outcome = .ok t ↔ outcome.state? = some t := by
  cases outcome <;> simp [settle]

section
variable {c t : ConnectionBuffers}

theorem taken_initReadBuf {size : Nat} : Taken c (.initReadBuf size) t ↔
    ∃ buf, Buffer.new size = .ok buf ∧ { c with readBuf := some buf } = t := by
  simp only [Taken, next, step, state?_map]
  exact attempt_state

theorem taken_initWriteBuf {size : Nat} : Taken c (.initWriteBuf size) t ↔
    ∃ buf, Buffer.new size = .ok buf ∧ { c with writeBuf := some buf } = t := by
  simp only [Taken, next, step, state?_map]
  exact attempt_state

theorem taken_addStreamBuf {size : Nat} : Taken c (.addStreamBuf size) t ↔
    ∃ buf, CircularBuffer.new size = .ok buf ∧
      { c with streamBufs := c.streamBufs ++ [buf] } = t := by
  simp only [Taken, next, step, state?_map]
  exact attempt_state

theorem taken_useReadBuf {op : BufferOp} : Taken c (.useReadBuf op) t ↔
    ∃ after, settlePresent (BufferScript.step op) c.readBuf = .ok after ∧
      { c with readBuf := after } = t := by
  simp only [Taken, next, step, state?_map]
  exact attempt_state

theorem taken_useWriteBuf {op : BufferOp} : Taken c (.useWriteBuf op) t ↔
    ∃ after, settlePresent (BufferScript.step op) c.writeBuf = .ok after ∧
      { c with writeBuf := after } = t := by
  simp only [Taken, next, step, state?_map]
  exact attempt_state

theorem taken_useStreamBuf {i : Nat} {op : RingOp} : Taken c (.useStreamBuf i op) t ↔
    (c.streamBufs[i]? = none ∧ c = t) ∨
      ∃ buf after, c.streamBufs[i]? = some buf ∧ (Secbuf.Ring.step op buf).state? = some after ∧
        { c with streamBufs := c.streamBufs.set i after } = t := by
  simp only [Taken, next, step, state?_map, ConnectionBuffers.useStreamBuf]
  cases c.streamBufs[i]? with
  | none => simp
  | some buf =>
    simp only [reduceCtorEq, false_and, false_or, Option.some.injEq, exists_and_left,
      exists_eq_left', attempt_state, settle_ok]

theorem taken_queuePacket {buf : Buffer} : Taken c (.queuePacket buf) t ↔
    (ConnectionBuffers.queuePacket buf c).state? = some t := by
  simp only [Taken, next, step, state?_map]

theorem taken_dequeuePacket : Taken c .dequeuePacket t ↔
    (ConnectionBuffers.dequeuePacket c).state? = some t := by
  simp only [Taken, next, step, state?_map]

theorem taken_reset : Taken c .reset t ↔ c.reset = t := by
  simp [Taken, next, step]

theorem taken_burn : Taken c .burn t ↔ c.burn = t := by
  simp [Taken, next, step]

end

end Secbuf.Connection
