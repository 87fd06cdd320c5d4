import Secbuf.LockedCalls
import Secbuf.Statistics

/-! The mutex-based pool access by access. Between its `lock` and its return a call reads and writes
the fields of the pool one after the other, and the other threads go on meanwhile; still every call
is one change of the pool, and its callers cannot tell. -/

namespace Secbuf.StandardInterleaved
open Calls Storage BufferCore Custody StandardPool LockedCalls

/-- What the mutex guards, and whether a call has panicked while holding it. -/
structure Guarded where
  inner : PoolInner
  poisoned : Bool

inductive PoolCall where
  | acquire
  /-- The end of a handle, with the buffer behind it. -/
  | drop (buffer : Buffer)
  | available
  | stats
  | shrink
  | clear
  | grow (targetSize : Nat)

inductive PoolAnswer where
  | handle (buffer : Buffer)
  | count (available : Nat)
  | stats (stats : Statistics.PoolStats)
  | unit
  | panicked

namespace Guarded

def setBuffers (g : Guarded) (buffers : List Buffer) : Guarded :=
  { g with inner := { g.inner with buffers := buffers } }

def setAcquired (count : Nat) (g : Guarded) : Guarded :=
  { g with inner := { g.inner with totalAcquired := count } }

def setAllocated (count : Nat) (g : Guarded) : Guarded :=
  { g with inner := { g.inner with totalAllocated := count } }

def setReturned (count : Nat) (g : Guarded) : Guarded :=
  { g with inner := { g.inner with totalReturned := count } }

def pop (g : Guarded) : Guarded := g.setBuffers g.inner.buffers.dropLast

def push (buffer : Buffer) (g : Guarded) : Guarded := g.setBuffers (g.inner.buffers ++ [buffer])

def poison (g : Guarded) : Guarded := { g with poisoned := true }

end Guarded

abbrev PoolBody := Body Guarded PoolAnswer

def panics : PoolBody := .step Guarded.poison fun _ => .done .panicked

def unwrapped (rest : PoolBody) : PoolBody :=
  .step id fun g => if g.poisoned then .done .panicked else rest

def reads (next : PoolInner → PoolBody) : PoolBody := .step id fun g => next g.inner

def counts (counter : PoolInner → Nat) (store : Nat → Guarded → Guarded) (rest : PoolBody) : PoolBody :=
  reads fun pool => .step (store (usizeAdd (counter pool) 1)) fun _ => rest

def acquireBody : PoolBody :=
  unwrapped (counts PoolInner.totalAcquired Guarded.setAcquired (.step Guarded.pop fun g =>
    match g.inner.buffers.getLast? with
    | some buffer => .done (.handle buffer)
    | none => counts PoolInner.totalAllocated Guarded.setAllocated (reads fun pool =>
      match Buffer.new pool.config.bufferSize with
      | .ok buffer => .done (.handle buffer)
      | .error _ => panics)))

/-- The buffer is burned before the lock is taken. -/
def dropBody (buffer : Buffer) : PoolBody :=
  unwrapped (counts PoolInner.totalReturned Guarded.setReturned (reads fun first => reads fun second =>
    if first.buffers.length < second.config.maxPoolSize then
      .step (Guarded.push buffer.burn) fun _ => .done .unit
    else .done .unit))

def availableBody : PoolBody := unwrapped (reads fun pool => .done (.count pool.available))

def statsBody : PoolBody :=
  unwrapped (reads fun first => reads fun second => reads fun third => reads fun fourth =>
    reads fun fifth => reads fun sixth => .done (.stats ⟨first.buffers.length, second.totalAllocated,
      third.totalAcquired, fourth.totalReturned, fifth.config.bufferSize, sixth.config.maxPoolSize⟩))

def shrinkBody : PoolBody :=
  unwrapped (reads fun pool =>
    .step (fun g => g.setBuffers (g.inner.buffers.take pool.config.minPoolSize)) fun _ =>
      .step id fun _ => .done .unit)

def clearBody : PoolBody := unwrapped (.step (fun g => g.setBuffers []) fun _ => .done .unit)

/-- The loop of `grow`, which looks at the length each time round. It goes round at most `target`
times, and looks once more. -/
def growLoop (target size : Nat) : Nat → PoolBody
  | 0 => reads fun _ => .done .unit
  | rounds + 1 => reads fun pool =>
    if pool.buffers.length < target then
      match Buffer.new size with
      | .ok buffer => .step (Guarded.push buffer) fun _ => growLoop target size rounds
      | .error _ => panics
    else .done .unit

def growBody (targetSize : Nat) : PoolBody :=
  unwrapped (reads fun first => reads fun second =>
    let target := min targetSize first.config.maxPoolSize
    growLoop target second.config.bufferSize target)

def body : PoolCall → PoolBody
  | .acquire => acquireBody
  | .drop buffer => dropBody buffer
  | .available => availableBody
  | .stats => statsBody
  | .shrink => shrinkBody
  | .clear => clearBody
  | .grow targetSize => growBody targetSize

def program (ι : Type) : Program ι Guarded (ι × PoolCall) PoolAnswer where
  lock call := call.1
  body call := body call.2

/-! The same calls as single changes of the pool. -/

def PoolCall.onPool (pool : PoolInner) : PoolCall → Guarded × PoolAnswer
  | .acquire =>
    match pool.acquire with
    | .ok (buffer, after) => (⟨after, false⟩, .handle buffer)
    | .error _ =>
      (⟨{ pool with
          totalAcquired := usizeAdd pool.totalAcquired 1
          totalAllocated := usizeAdd pool.totalAllocated 1 }, true⟩, .panicked)
  | .drop buffer => (⟨pool.dropHandle buffer, false⟩, .unit)
  | .available => (⟨pool, false⟩, .count pool.available)
  | .stats => (⟨pool, false⟩, .stats (Statistics.stats pool))
  | .shrink => (⟨pool.shrink, false⟩, .unit)
  | .clear => (⟨pool.clear, false⟩, .unit)
  | .grow targetSize =>
    match pool.grow targetSize with
    | .ok after => (⟨after, false⟩, .unit)
    | .error _ => (⟨pool, true⟩, .panicked)

/-- A poisoned mutex turns the call away. -/
def PoolCall.whole (call : PoolCall) (g : Guarded) : Guarded × PoolAnswer :=
  if g.poisoned then (g, .panicked) else call.onPool g.inner

section
variable {g : Guarded}

theorem run_unwrapped {rest : PoolBody} {result : Guarded × PoolAnswer}
    (sound : g.poisoned = false → rest.run g = result) :
    (unwrapped rest).run g = if g.poisoned then (g, .panicked) else result := by
  cases poisoned : g.poisoned with
  | true => simp [unwrapped, Body.run, poisoned]
  | false => simpa [unwrapped, Body.run, poisoned] using sound poisoned

theorem acquire_run : acquireBody.run g = PoolCall.acquire.whole g := by
  apply run_unwrapped
  intro sound
  cases top : g.inner.buffers.getLast? with
  | some buffer =>
    simp [Body.run, counts, reads, Guarded.setAcquired, Guarded.pop, Guarded.setBuffers, top,
      PoolCall.onPool, PoolInner.acquire, sound]
  | none =>
    have empty : g.inner.buffers = [] := List.getLast?_eq_none_iff.mp top
    cases made : Buffer.new g.inner.config.bufferSize <;>
      simp [Body.run, counts, reads, Guarded.setAcquired, Guarded.pop, Guarded.setBuffers,
        Guarded.setAllocated, Guarded.poison, panics, empty, made, PoolCall.onPool, PoolInner.acquire,
        sound]

theorem drop_run (buffer : Buffer) : (dropBody buffer).run g = (PoolCall.drop buffer).whole g := by
  apply run_unwrapped
  intro sound
  by_cases room : g.inner.buffers.length < g.inner.config.maxPoolSize <;>
    simp [Body.run, counts, reads, Guarded.setReturned, Guarded.push, Guarded.setBuffers, room,
      PoolCall.onPool, PoolInner.dropHandle, sound]

theorem available_run : availableBody.run g = PoolCall.available.whole g := by
  apply run_unwrapped
  intro sound
  simp [Body.run, reads, PoolCall.onPool, ← sound]

theorem stats_run : statsBody.run g = PoolCall.stats.whole g := by
  apply run_unwrapped
  intro sound
  simp [Body.run, reads, PoolCall.onPool, Statistics.stats, ← sound]

theorem shrink_run : shrinkBody.run g = PoolCall.shrink.whole g := by
  apply run_unwrapped
  intro sound
  simp [Body.run, reads, Guarded.setBuffers, PoolCall.onPool, PoolInner.shrink, sound]

theorem clear_run : clearBody.run g = PoolCall.clear.whole g := by
  apply run_unwrapped
  intro sound
  simp [Body.run, Guarded.setBuffers, PoolCall.onPool, PoolInner.clear, sound]

theorem growLoop_run {target size rounds : Nat} (enough : target - g.inner.buffers.length ≤ rounds) :
    (growLoop target size rounds).run g =
      match pushFresh size (target - g.inner.buffers.length) g.inner.buffers with
      | .ok buffers => (g.setBuffers buffers, .unit)
      | .error _ => (g.poison, .panicked) := by
  induction rounds generalizing g with
  | zero =>
    have none : target - g.inner.buffers.length = 0 := Nat.le_zero.mp enough
    rw [none]
    rfl
  | succ rounds ih =>
    by_cases short : g.inner.buffers.length < target
    · obtain ⟨missing, more⟩ : ∃ missing, target - g.inner.buffers.length = missing + 1 :=
        Nat.exists_eq_succ_of_ne_zero (Nat.sub_ne_zero_of_lt short)
      cases made : Buffer.new size with
      | error reason => simp [growLoop, Body.run, reads, short, made, more, pushFresh, panics]
      | ok buffer =>
        have fewer : target - (g.push buffer).inner.buffers.length = missing := by
          simp only [Guarded.push, Guarded.setBuffers, List.length_append, List.length_singleton]
          omega
        -- a size that could be allocated once can be allocated again
        obtain ⟨all, pushed⟩ := pushFresh_total (Buffer.new_cases made).1 missing
          (g.inner.buffers ++ [buffer])
        have rest := ih (g := g.push buffer) (by omega)
        have longer : (g.push buffer).inner.buffers = g.inner.buffers ++ [buffer] := rfl
        rw [fewer, longer, pushed] at rest
        simp only [growLoop, Body.run, reads, id_eq, if_pos short, made, more, pushFresh, pushed]
        exact rest
    · have none : target - g.inner.buffers.length = 0 := Nat.sub_eq_zero_of_le (Nat.le_of_not_lt short)
      rw [none]
      simp [growLoop, Body.run, reads, short, pushFresh, Guarded.setBuffers]

theorem grow_run (targetSize : Nat) :
    (growBody targetSize).run g = (PoolCall.grow targetSize).whole g := by
  apply run_unwrapped
  intro sound
  simp only [Body.run, reads, id_eq]
  rw [growLoop_run (Nat.sub_le _ _)]
  simp only [PoolCall.onPool, PoolInner.grow]
  cases pushFresh g.inner.config.bufferSize
      (min targetSize g.inner.config.maxPoolSize - g.inner.buffers.length) g.inner.buffers <;>
    simp [Guarded.setBuffers, Guarded.poison, sound]

theorem body_run (call : PoolCall) : (body call).run g = call.whole g := by
  cases call with
  | acquire => exact acquire_run
  | drop buffer => exact drop_run buffer
  | available => exact available_run
  | stats => exact stats_run
  | shrink => exact shrink_run
  | clear => exact clear_run
  | grow targetSize => exact grow_run targetSize

end

/-- The calls on the mutex-based pools as they are, access by access, and the calls as single changes
of a pool show their callers the same, in every interleaving of any threads; and what they leave in
the pools, where no thread holds a mutex, is the same. -/
theorem calls_at_once {ι θ : Type} [DecidableEq ι] [DecidableEq θ] (pools after : ι → Guarded)
    (trace : List (Event (ι × PoolCall) PoolAnswer θ)) :
    ((∃ s, Shows (Stepwise (program ι)) (.start pools) trace s) ↔
      ∃ a, Shows (AtOnce (program ι).lock fun call => call.2.whole) (.start pools) trace a) ∧
    ((∃ s, Shows (Stepwise (program ι)) (.start pools) trace s ∧ s.owner = (fun _ => none) ∧
        s.values = after) ↔
      ∃ a, Shows (AtOnce (program ι).lock fun call => call.2.whole) (.start pools) trace a ∧
        a.values = after) :=
  shows_iff (fun call _ => body_run call.2) pools after trace

end Secbuf.StandardInterleaved
