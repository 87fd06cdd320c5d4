import Mathlib.Logic.Function.Basic
import Secbuf.CountedQueue
import Secbuf.Custody

/-! The lock-free pool with thread-local caches. A thread inside a call stands at one of the
points between two atomic steps (a queue operation, or an operation on a counter), and any
thread may take the next step; the cache belongs to the thread and not to a pool. -/

namespace Secbuf.FastPool
open Calls Storage BufferCore BufferScript Custody
open CountedQueue (LockFreeQueue)

def THREAD_CACHE_CAPACITY : Nat := 16

/-- A buffer, numbered in the order of its creation. -/
structure Item where
  serial : Nat
  buffer : Buffer
  deriving DecidableEq

structure FastPoolStatsInner where
  allocated : Nat
  acquired : Nat
  returned : Nat
  cacheHits : Nat
  deriving DecidableEq, Repr

structure FastBufferPool where
  globalPool : LockFreeQueue Item
  config : PoolConfig
  stats : FastPoolStatsInner
  deriving DecidableEq

namespace FastBufferPool

def enqueue (pool : FastBufferPool) (item : Item) : FastBufferPool :=
  { pool with globalPool := pool.globalPool.enqueue item }

def countUp (pool : FastBufferPool) : FastBufferPool :=
  { pool with globalPool := pool.globalPool.countUp }

def dequeue (pool : FastBufferPool) (rest : List Item) : FastBufferPool :=
  { pool with globalPool := pool.globalPool.dequeue rest }

def countDown (pool : FastBufferPool) : FastBufferPool :=
  { pool with globalPool := pool.globalPool.countDown }

def countAcquired (pool : FastBufferPool) : FastBufferPool :=
  { pool with stats := { pool.stats with acquired := usizeAdd pool.stats.acquired 1 } }

def countHit (pool : FastBufferPool) : FastBufferPool :=
  { pool with stats := { pool.stats with cacheHits := usizeAdd pool.stats.cacheHits 1 } }

def countAllocated (pool : FastBufferPool) : FastBufferPool :=
  { pool with stats := { pool.stats with allocated := usizeAdd pool.stats.allocated 1 } }

def countReturned (pool : FastBufferPool) : FastBufferPool :=
  { pool with stats := { pool.stats with returned := usizeAdd pool.stats.returned 1 } }

def available (pool : FastBufferPool) : Nat := pool.globalPool.len

/-- The best-effort bound in front of every push of a returned buffer. -/
def hasRoom (pool : FastBufferPool) : Bool := pool.globalPool.len < pool.config.maxPoolSize

end FastBufferPool

/-- Where a thread stands inside a call on a pool. -/
inductive Pc (ι : Type) where
  | idle
  /-- `acquire` has been counted and looks into the cache, then into the queue. -/
  | acquireCache (p : ι)
  | acquirePopped (p : ι) (item : Item)
  | acquireEmpty (p : ι)
  /-- `acquire` returns this buffer. -/
  | acquireDone (p : ι) (item : Item)
  /-- A handle's `drop` has burned the buffer and counted it as returned. -/
  | dropStore (p : ι) (item : Item)
  | dropPush (p : ι) (item : Item)
  | dropCount (p : ι)
  | warm (p : ι) (left : Nat)
  | warmCount (p : ι) (left : Nat)
  | clear (p : ι)
  | clearCount (p : ι) (item : Item)
  /-- The loop of `clear_thread_cache`. -/
  | flush (p : ι)
  | flushPush (p : ι) (item : Item)
  | flushCount (p : ι)
  deriving DecidableEq

/-- The buffer a thread is carrying to or from the queue or the caller of a pool. -/
def Pc.carries {ι : Type} : Pc ι → Option (ι × Item)
  | .acquirePopped p item | .acquireDone p item | .dropStore p item | .dropPush p item
  | .clearCount p item | .flushPush p item => some (p, item)
  | _ => none

structure FastHandle (ι : Type) where
  pool : ι
  item : Item
  deriving DecidableEq

def FastHandle.withBuffer {ι : Type} (handle : FastHandle ι) (b : Buffer) : FastHandle ι :=
  { handle with item := { handle.item with buffer := b } }

structure World (ι θ : Type) where
  pools : ι → Option FastBufferPool
  caches : θ → List Item
  threads : θ → Pc ι
  /-- The thread's cache has been destroyed with its other thread-locals. -/
  tornDown : θ → Bool
  held : List (FastHandle ι)
  leaked : List Item
  destroyed : List Item
  created : Nat

inductive Action (ι θ : Type) where
  | new (p : ι) (config : PoolConfig)
  | acquire (t : θ) (p : ι)
  | drop (t : θ) (i : Nat)
  | dropNow (i : Nat)
  | leak (i : Nat)
  | warm (t : θ) (p : ι) (targetSize : Nat)
  | clear (t : θ) (p : ι)
  | clearThreadCache (t : θ) (p : ι)
  /-- The next atomic step of the call the thread is in. -/
  | advance (t : θ)
  | exit (t : θ)
  /-- A safe operation on the buffer behind a handle. -/
  | use (i : Nat) (op : BufferOp)
  /-- `*handle = b`, through `DerefMut`. -/
  | replace (i : Nat) (b : Buffer)

namespace World
variable {ι θ : Type}

def empty : World ι θ where
  pools _ := none
  caches _ := []
  threads _ := .idle
  tornDown _ := false
  held := []
  leaked := []
  destroyed := []
  created := 0

def setPool [DecidableEq ι] (s : World ι θ) (p : ι) (pool : FastBufferPool) : World ι θ :=
  { s with pools := Function.update s.pools p (some pool) }

def setCache [DecidableEq θ] (s : World ι θ) (t : θ) (cache : List Item) : World ι θ :=
  { s with caches := Function.update s.caches t cache }

def setPc [DecidableEq θ] (s : World ι θ) (t : θ) (pc : Pc ι) : World ι θ :=
  { s with threads := Function.update s.threads t pc }

def destroy (s : World ι θ) (items : List Item) : World ι θ :=
  { s with destroyed := items ++ s.destroyed }

end World

def freshItems (size : Nat) : Nat → Nat → Except Fault (List Item)
  | 0, _ => .ok []
  | count + 1, serial =>
    match Buffer.new size, freshItems size count (serial + 1) with
    | .ok buffer, .ok rest => .ok (⟨serial, buffer⟩ :: rest)
    | .error reason, _ => .error reason
    | _, .error reason => .error reason

theorem freshItems_cases {size count serial : Nat} {items : List Item}
    (done : freshItems size (count + 1) serial = .ok items) :
    ∃ buffer rest, Buffer.new size = .ok buffer ∧ freshItems size count (serial + 1) = .ok rest ∧
      items = ⟨serial, buffer⟩ :: rest := by
  cases made : Buffer.new size with
  | error reason => simp [freshItems, made] at done
  | ok buffer =>
    cases others : freshItems size count (serial + 1) with
    | error reason => simp [freshItems, made, others] at done
    | ok rest =>
      simp only [freshItems, made, others, Except.ok.injEq] at done
      exact ⟨buffer, rest, rfl, rfl, done.symm⟩

theorem freshItems_mem {size count serial : Nat} {items : List Item}
    (done : freshItems size count serial = .ok items) {item : Item} (member : item ∈ items) :
    Buffer.new size = .ok item.buffer := by
  induction count generalizing serial items with
  | zero =>
    cases done
    cases member
  | succ count ih =>
    obtain ⟨buffer, rest, made, others, rfl⟩ := freshItems_cases done
    rcases List.mem_cons.mp member with rfl | later
    · exact made
    · exact ih others later

theorem freshItems_length {size count serial : Nat} {items : List Item}
    (done : freshItems size count serial = .ok items) : items.length = count := by
  induction count generalizing serial items with
  | zero =>
    cases done
    rfl
  | succ count ih =>
    obtain ⟨buffer, rest, -, others, rfl⟩ := freshItems_cases done
    rw [List.length_cons, ih others]

section
variable {ι θ : Type} [DecidableEq ι] [DecidableEq θ]

/-- The next atomic step of a thread. -/
def advance (s : World ι θ) (t : θ) : Option (World ι θ) :=
  match s.threads t with
  | .idle => none
  | .acquireCache p => do
    let pool ← s.pools p
    match (s.caches t).getLast? with
    | some item =>
      some (((s.setPool p pool.countHit).setCache t (s.caches t).dropLast).setPc t
        (.acquireDone p item))
    | none =>
      match pool.globalPool.items with
      | item :: rest => some ((s.setPool p (pool.dequeue rest)).setPc t (.acquirePopped p item))
      | [] => some (s.setPc t (.acquireEmpty p))
  | .acquirePopped p item => do
    let pool ← s.pools p
    some ((s.setPool p pool.countDown).setPc t (.acquireDone p item))
  | .acquireEmpty p => do
    let pool ← s.pools p
    match Buffer.new pool.config.bufferSize with
    | .ok buffer =>
      some { (s.setPool p pool.countAllocated).setPc t (.acquireDone p ⟨s.created, buffer⟩) with
        created := s.created + 1 }
    | .error _ => none
  | .acquireDone p item => some { s.setPc t .idle with held := ⟨p, item⟩ :: s.held }
  | .dropStore p item =>
    if s.tornDown t = false ∧ (s.caches t).length < THREAD_CACHE_CAPACITY then
      some ((s.setCache t (s.caches t ++ [item])).setPc t .idle)
    else do
      let pool ← s.pools p
      if pool.hasRoom then some (s.setPc t (.dropPush p item))
      else some ((s.setPc t .idle).destroy [item])
  | .dropPush p item => do
    let pool ← s.pools p
    some ((s.setPool p (pool.enqueue item)).setPc t (.dropCount p))
  | .dropCount p => do
    let pool ← s.pools p
    some ((s.setPool p pool.countUp).setPc t .idle)
  | .warm _ 0 => some (s.setPc t .idle)
  | .warm p (left + 1) => do
    let pool ← s.pools p
    match Buffer.new pool.config.bufferSize with
    | .ok buffer =>
      some { (s.setPool p (pool.enqueue ⟨s.created, buffer⟩)).setPc t (.warmCount p left) with
        created := s.created + 1 }
    | .error _ => none
  | .warmCount p left => do
    let pool ← s.pools p
    some ((s.setPool p pool.countUp).setPc t (.warm p left))
  | .clear p => do
    let pool ← s.pools p
    match pool.globalPool.items with
    | item :: rest => some ((s.setPool p (pool.dequeue rest)).setPc t (.clearCount p item))
    | [] => some (s.setPc t .idle)
  | .clearCount p item => do
    let pool ← s.pools p
    some (((s.setPool p pool.countDown).setPc t (.clear p)).destroy [item])
  | .flush p =>
    match (s.caches t).getLast? with
    | none => some (s.setPc t .idle)
    | some item => do
      let pool ← s.pools p
      if pool.hasRoom then
        some ((s.setCache t (s.caches t).dropLast).setPc t (.flushPush p item))
      else
        some ((s.setCache t (s.caches t).dropLast).destroy
          [{ item with buffer := item.buffer.burn }])
  | .flushPush p item => do
    let pool ← s.pools p
    some ((s.setPool p (pool.enqueue item)).setPc t (.flushCount p))
  | .flushCount p => do
    let pool ← s.pools p
    some ((s.setPool p pool.countUp).setPc t (.flush p))

/-- One step of the system; no next state when it is not possible or panics. -/
def next (s : World ι θ) : Action ι θ → Option (World ι θ)
  | .new p config =>
    match s.pools p, freshItems config.bufferSize config.minPoolSize s.created with
    | none, .ok items =>
      some { s.setPool p ⟨⟨items, config.minPoolSize % 2 ^ 64⟩, config, ⟨0, 0, 0, 0⟩⟩ with
        created := s.created + config.minPoolSize }
    | _, _ => none
  | .acquire t p =>
    if s.threads t = .idle ∧ s.tornDown t = false then do
      let pool ← s.pools p
      some ((s.setPool p pool.countAcquired).setPc t (.acquireCache p))
    else none
  | .drop t i =>
    if s.threads t = .idle then do
      let handle ← s.held[i]?
      let pool ← s.pools handle.pool
      some { (s.setPool handle.pool pool.countReturned).setPc t
          (.dropStore handle.pool { handle.item with buffer := handle.item.buffer.burn }) with
        held := s.held.eraseIdx i }
    else none
  | .dropNow i => do
    let handle ← s.held[i]?
    some ({ s with held := s.held.eraseIdx i }.destroy
      [{ handle.item with buffer := handle.item.buffer.burn }])
  | .leak i => do
    let handle ← s.held[i]?
    some { s with held := s.held.eraseIdx i, leaked := handle.item :: s.leaked }
  | .warm t p targetSize =>
    if s.threads t = .idle then do
      let pool ← s.pools p
      some (s.setPc t (.warm p (min targetSize pool.config.maxPoolSize - pool.globalPool.len)))
    else none
  | .clear t p =>
    if s.threads t = .idle then do
      let _ ← s.pools p
      some (s.setPc t (.clear p))
    else none
  | .clearThreadCache t p =>
    if s.threads t = .idle ∧ s.tornDown t = false then do
      let _ ← s.pools p
      some (s.setPc t (.flush p))
    else none
  | .advance t => advance s t
  | .exit t =>
    if s.threads t = .idle then
      some ({ s.setCache t [] with tornDown := Function.update s.tornDown t true }.destroy
        (s.caches t))
    else none
  | .use i op => do
    let handle ← s.held[i]?
    let after ← (step op handle.item.buffer).state?
    some { s with held := s.held.set i (handle.withBuffer after) }
  | .replace i b => do
    let handle ← s.held[i]?
    some { s with held := s.held.set i (handle.withBuffer b) }

def Taken (s : World ι θ) (action : Action ι θ) (t : World ι θ) : Prop := next s action = some t

end

end Secbuf.FastPool
