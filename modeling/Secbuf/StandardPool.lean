import Mathlib.Logic.Function.Basic
import Secbuf.Custody

/-! The mutex-based pool. Each call takes the lock once, so the pools, the buffers they keep
idle and the handles that are out change by one call at a time, in any order. -/

namespace Secbuf.StandardPool
open Calls Storage BufferCore BufferScript Custody

structure PoolInner where
  /-- Idle buffers; `push` and `pop` work at the end. -/
  buffers : List Buffer
  config : PoolConfig
  totalAllocated : Nat
  totalAcquired : Nat
  totalReturned : Nat
  deriving DecidableEq

namespace PoolInner

def new (config : PoolConfig) : Except Fault PoolInner :=
  match pushFresh config.bufferSize config.minPoolSize [] with
  | .ok buffers => .ok ⟨buffers, config, 0, 0, 0⟩
  | .error reason => .error reason

def acquire (pool : PoolInner) : Except Fault (Buffer × PoolInner) :=
  let counted := { pool with totalAcquired := usizeAdd pool.totalAcquired 1 }
  match pool.buffers.getLast? with
  | some buffer => .ok (buffer, { counted with buffers := pool.buffers.dropLast })
  | none =>
    match Buffer.new pool.config.bufferSize with
    | .ok buffer =>
      .ok (buffer, { counted with totalAllocated := usizeAdd pool.totalAllocated 1 })
    | .error reason => .error reason

def available (pool : PoolInner) : Nat := pool.buffers.length

/-- The handle's `drop`: burn first, then keep the buffer if there is room. -/
def dropHandle (pool : PoolInner) (buffer : Buffer) : PoolInner :=
  let counted := { pool with totalReturned := usizeAdd pool.totalReturned 1 }
  if pool.buffers.length < pool.config.maxPoolSize then
    { counted with buffers := pool.buffers ++ [buffer.burn] }
  else counted

def shrink (pool : PoolInner) : PoolInner :=
  { pool with buffers := pool.buffers.take pool.config.minPoolSize }

def clear (pool : PoolInner) : PoolInner := { pool with buffers := [] }

def grow (pool : PoolInner) (targetSize : Nat) : Except Fault PoolInner :=
  let target := min targetSize pool.config.maxPoolSize
  match pushFresh pool.config.bufferSize (target - pool.buffers.length) pool.buffers with
  | .ok buffers => .ok { pool with buffers := buffers }
  | .error reason => .error reason

end PoolInner

structure World (ι : Type) where
  pools : ι → Option PoolInner
  held : List (Handle ι)

inductive Action (ι : Type) where
  | new (p : ι) (config : PoolConfig)
  | acquire (p : ι)
  | drop (i : Nat)
  | dropNow (i : Nat)
  | leak (i : Nat)
  | grow (p : ι) (targetSize : Nat)
  | shrink (p : ι)
  | clear (p : ι)
  /-- A safe operation on the buffer behind a handle. -/
  | use (i : Nat) (op : BufferOp)
  /-- `*handle = b`, through `DerefMut`. -/
  | replace (i : Nat) (b : Buffer)

section
variable {ι : Type}

def World.empty : World ι := ⟨fun _ => none, []⟩

variable [DecidableEq ι] in
def World.setPool (s : World ι) (p : ι) (pool : PoolInner) : World ι :=
  { s with pools := Function.update s.pools p (some pool) }

variable [DecidableEq ι] in
/-- One call; no next state when the call is not possible or panics. -/
def next (s : World ι) : Action ι → Option (World ι)
  | .new p config =>
    match s.pools p, PoolInner.new config with
    | none, .ok pool => some (s.setPool p pool)
    | _, _ => none
  | .acquire p => do
    let pool ← s.pools p
    match pool.acquire with
    | .ok (buffer, pool) => some { s.setPool p pool with held := ⟨p, buffer⟩ :: s.held }
    | .error _ => none
  | .drop i => do
    let handle ← s.held[i]?
    let pool ← s.pools handle.pool
    some { s.setPool handle.pool (pool.dropHandle handle.buffer) with held := s.held.eraseIdx i }
  | .dropNow i | .leak i => do
    let _ ← s.held[i]?
    some { s with held := s.held.eraseIdx i }
  | .grow p targetSize => do
    let pool ← s.pools p
    match pool.grow targetSize with
    | .ok pool => some (s.setPool p pool)
    | .error _ => none
  | .shrink p => do
    let pool ← s.pools p
    some (s.setPool p pool.shrink)
  | .clear p => do
    let pool ← s.pools p
    some (s.setPool p pool.clear)
  | .use i op => do
    let handle ← s.held[i]?
    let after ← (step op handle.buffer).state?
    some { s with held := s.held.set i { handle with buffer := after } }
  | .replace i b => do
    let handle ← s.held[i]?
    some { s with held := s.held.set i { handle with buffer := b } }

variable [DecidableEq ι] in
def Taken (s : World ι) (action : Action ι) (t : World ι) : Prop := next s action = some t

/-! What a call can do, first to one pool and then to the world. -/

theorem new_cases {config : PoolConfig} {pool : PoolInner} (made : PoolInner.new config = .ok pool) :
    ∃ buffers, pushFresh config.bufferSize config.minPoolSize [] = .ok buffers ∧
      pool = ⟨buffers, config, 0, 0, 0⟩ := by
  unfold PoolInner.new at made
  split at made
  · rename_i buffers pushed
    exact ⟨buffers, pushed, (Except.ok.inj made).symm⟩
  · cases made

theorem acquire_cases {pool after : PoolInner} {buffer : Buffer}
    (done : pool.acquire = .ok (buffer, after)) :
    (pool.buffers.getLast? = some buffer ∧ after = { pool with
      buffers := pool.buffers.dropLast
      totalAcquired := usizeAdd pool.totalAcquired 1 }) ∨
    (Buffer.new pool.config.bufferSize = .ok buffer ∧ after = { pool with
      totalAllocated := usizeAdd pool.totalAllocated 1
      totalAcquired := usizeAdd pool.totalAcquired 1 }) := by
  unfold PoolInner.acquire at done
  dsimp only at done
  split at done
  · rename_i last top
    cases done
    exact Or.inl ⟨top, rfl⟩
  · split at done
    · rename_i fresh made
      cases done
      exact Or.inr ⟨made, rfl⟩
    · cases done

theorem dropHandle_cases (pool : PoolInner) (buffer : Buffer) :
    (pool.buffers.length < pool.config.maxPoolSize ∧ pool.dropHandle buffer = { pool with
      buffers := pool.buffers ++ [buffer.burn]
      totalReturned := usizeAdd pool.totalReturned 1 }) ∨
    pool.dropHandle buffer = { pool with totalReturned := usizeAdd pool.totalReturned 1 } := by
  unfold PoolInner.dropHandle
  dsimp only
  split_ifs with room
  · exact Or.inl ⟨room, rfl⟩
  · exact Or.inr rfl

theorem grow_cases {pool after : PoolInner} {targetSize : Nat}
    (done : pool.grow targetSize = .ok after) :
    ∃ buffers, pushFresh pool.config.bufferSize
        (min targetSize pool.config.maxPoolSize - pool.buffers.length) pool.buffers = .ok buffers ∧
      after = { pool with buffers := buffers } := by
  unfold PoolInner.grow at done
  dsimp only at done
  split at done
  · rename_i buffers pushed
    exact ⟨buffers, pushed, (Except.ok.inj done).symm⟩
  · cases done

variable [DecidableEq ι] in
inductive Step (s : World ι) : Action ι → World ι → Prop
  | new {p : ι} {config : PoolConfig} {pool : PoolInner} (absent : s.pools p = none)
      (made : PoolInner.new config = .ok pool) : Step s (.new p config) (s.setPool p pool)
  | acquire {p : ι} {pool after : PoolInner} {buffer : Buffer} (here : s.pools p = some pool)
      (done : pool.acquire = .ok (buffer, after)) :
      Step s (.acquire p) { s.setPool p after with held := ⟨p, buffer⟩ :: s.held }
  | drop {i : Nat} {handle : Handle ι} {pool : PoolInner} (found : s.held[i]? = some handle)
      (here : s.pools handle.pool = some pool) :
      Step s (.drop i) { s.setPool handle.pool (pool.dropHandle handle.buffer) with
        held := s.held.eraseIdx i }
  | dropNow {i : Nat} {handle : Handle ι} (found : s.held[i]? = some handle) :
      Step s (.dropNow i) { s with held := s.held.eraseIdx i }
  | leak {i : Nat} {handle : Handle ι} (found : s.held[i]? = some handle) :
      Step s (.leak i) { s with held := s.held.eraseIdx i }
  | grow {p : ι} {targetSize : Nat} {pool after : PoolInner} (here : s.pools p = some pool)
      (done : pool.grow targetSize = .ok after) : Step s (.grow p targetSize) (s.setPool p after)
  | shrink {p : ι} {pool : PoolInner} (here : s.pools p = some pool) :
      Step s (.shrink p) (s.setPool p pool.shrink)
  | clear {p : ι} {pool : PoolInner} (here : s.pools p = some pool) :
      Step s (.clear p) (s.setPool p pool.clear)
  | use {i : Nat} {op : BufferOp} {handle : Handle ι} {b : Buffer}
      (found : s.held[i]? = some handle) (stepped : Stepped handle.buffer op b) :
      Step s (.use i op) { s with held := s.held.set i { handle with buffer := b } }
  | replace {i : Nat} {b : Buffer} {handle : Handle ι} (found : s.held[i]? = some handle) :
      Step s (.replace i b) { s with held := s.held.set i { handle with buffer := b } }

variable [DecidableEq ι] in
theorem step_of_taken {s t : World ι} {action : Action ι} (taken : Taken s action t) :
    Step s action t := by
  cases action with
  | new p config =>
    simp only [Taken, next] at taken
    split at taken
    · rename_i absent made
      cases taken
      exact .new absent made
    · cases taken
  | acquire p =>
    obtain ⟨pool, here, later⟩ := Option.bind_eq_some_iff.mp taken
    split at later
    · rename_i done
      cases later
      exact .acquire here done
    · cases later
  | drop i =>
    obtain ⟨handle, found, later⟩ := Option.bind_eq_some_iff.mp taken
    obtain ⟨pool, here, later⟩ := Option.bind_eq_some_iff.mp later
    cases later
    exact .drop found here
  | dropNow i =>
    obtain ⟨handle, found, later⟩ := Option.bind_eq_some_iff.mp taken
    cases later
    exact .dropNow found
  | leak i =>
    obtain ⟨handle, found, later⟩ := Option.bind_eq_some_iff.mp taken
    cases later
    exact .leak found
  | grow p targetSize =>
    obtain ⟨pool, here, later⟩ := Option.bind_eq_some_iff.mp taken
    split at later
    · rename_i done
      cases later
      exact .grow here done
    · cases later
  | shrink p =>
    obtain ⟨pool, here, later⟩ := Option.bind_eq_some_iff.mp taken
    cases later
    exact .shrink here
  | clear p =>
    obtain ⟨pool, here, later⟩ := Option.bind_eq_some_iff.mp taken
    cases later
    exact .clear here
  | use i op =>
    obtain ⟨handle, found, later⟩ := Option.bind_eq_some_iff.mp taken
    obtain ⟨after, stepped, later⟩ := Option.bind_eq_some_iff.mp later
    cases later
    exact .use found stepped
  | replace i b =>
    obtain ⟨handle, found, later⟩ := Option.bind_eq_some_iff.mp taken
    cases later
    exact .replace found

/-! One call, whatever is known about the buffers. -/

def allows (rules : Rules) (s : World ι) : Action ι → Prop
  | .drop i => ∀ handle pool, s.held[i]? = some handle → s.pools handle.pool = some pool →
    pool.buffers.length < pool.config.maxPoolSize → rules.returns pool.config handle.buffer
  | .use i op => ∀ handle, s.held[i]? = some handle → rules.uses handle.buffer op
  | .replace i b => ∀ handle pool, s.held[i]? = some handle → s.pools handle.pool = some pool →
    rules.owned pool.config b
  | _ => True

/-- Idle buffers are ready and held ones are owned. -/
structure Kept (rules : Rules) (s : World ι) : Prop where
  idle : ∀ p pool, s.pools p = some pool → ∀ b ∈ pool.buffers, rules.ready pool.config b
  held : ∀ handle ∈ s.held, ∃ pool, s.pools handle.pool = some pool ∧
    rules.owned pool.config handle.buffer

theorem kept_empty (rules : Rules) : Kept rules (World.empty : World ι) := ⟨nofun, nofun⟩

section
variable {rules : Rules} {s : World ι}

theorem Kept.fewer (kept : Kept rules s) {held : List (Handle ι)} (fewer : held ⊆ s.held) :
    Kept rules { s with held := held } :=
  ⟨kept.idle, fun handle member => kept.held handle (fewer member)⟩

theorem Kept.edit (kept : Kept rules s) {i : Nat} {handle : Handle ι} (here : s.held[i]? = some handle)
    {b : Buffer} (owned : ∀ pool, s.pools handle.pool = some pool →
      rules.owned pool.config handle.buffer → rules.owned pool.config b) :
    Kept rules { s with held := s.held.set i { handle with buffer := b } } := by
  refine ⟨kept.idle, fun other member => ?_⟩
  rcases List.mem_or_eq_of_mem_set member with old | rfl
  · exact kept.held other old
  · obtain ⟨pool, found, before⟩ := kept.held handle (List.mem_of_getElem? here)
    exact ⟨pool, found, owned pool found before⟩

theorem acquire_ready (kept : Kept rules s) {p : ι} {pool after : PoolInner} {buffer : Buffer}
    (here : s.pools p = some pool) (done : pool.acquire = .ok (buffer, after)) :
    rules.ready pool.config buffer := by
  rcases acquire_cases done with ⟨top, -⟩ | ⟨made, -⟩
  · exact kept.idle p pool here buffer (List.mem_of_getLast? top)
  · exact rules.fresh made

variable [DecidableEq ι]

theorem Kept.setPool (kept : Kept rules s) {p : ι} {pool after : PoolInner}
    (here : s.pools p = some pool) (config : after.config = pool.config)
    (idle : ∀ b ∈ after.buffers, rules.ready pool.config b) : Kept rules (s.setPool p after) := by
  constructor
  · intro q other found b member
    simp only [World.setPool, Function.update_apply] at found
    split_ifs at found with same
    · cases found
      exact config ▸ idle b member
    · exact kept.idle q other found b member
  · intro handle member
    obtain ⟨old, found, owned⟩ := kept.held handle member
    simp only [World.setPool, Function.update_apply]
    split_ifs with same
    · rw [same, here] at found
      cases found
      exact ⟨after, rfl, config ▸ owned⟩
    · exact ⟨old, found, owned⟩

theorem Kept.newPool (kept : Kept rules s) {p : ι} {pool : PoolInner} (absent : s.pools p = none)
    (idle : ∀ b ∈ pool.buffers, rules.ready pool.config b) : Kept rules (s.setPool p pool) := by
  constructor
  · intro q other found b member
    simp only [World.setPool, Function.update_apply] at found
    split_ifs at found with same
    · cases found
      exact idle b member
    · exact kept.idle q other found b member
  · intro handle member
    obtain ⟨old, found, owned⟩ := kept.held handle member
    have other : handle.pool ≠ p := by
      rintro rfl
      rw [absent] at found
      cases found
    exact ⟨old, by simpa [World.setPool, Function.update_apply, other] using found, owned⟩

theorem Kept.acquire (kept : Kept rules s) {p : ι} {pool after : PoolInner} {buffer : Buffer}
    (here : s.pools p = some pool) (done : pool.acquire = .ok (buffer, after)) :
    Kept rules { s.setPool p after with held := ⟨p, buffer⟩ :: s.held } := by
  have ready := kept.idle p pool here
  have config : after.config = pool.config := by
    rcases acquire_cases done with ⟨-, rfl⟩ | ⟨-, rfl⟩ <;> rfl
  have set : Kept rules (s.setPool p after) := by
    refine kept.setPool here config fun b member => ready b ?_
    rcases acquire_cases done with ⟨-, rfl⟩ | ⟨-, rfl⟩
    · exact List.dropLast_subset _ member
    · exact member
  refine ⟨set.idle, fun handle member => ?_⟩
  rcases List.mem_cons.mp member with rfl | old
  · refine ⟨after, by simp [World.setPool], ?_⟩
    rw [config]
    exact rules.handed (acquire_ready kept here done)
  · exact set.held handle old

theorem Kept.dropHandle (kept : Kept rules s) {handle : Handle ι} {pool : PoolInner}
    (member : handle ∈ s.held) (here : s.pools handle.pool = some pool)
    (returns : pool.buffers.length < pool.config.maxPoolSize →
      rules.returns pool.config handle.buffer) :
    Kept rules (s.setPool handle.pool (pool.dropHandle handle.buffer)) := by
  have idle := kept.idle handle.pool pool here
  rcases dropHandle_cases pool handle.buffer with ⟨room, result⟩ | result
  · rw [result]
    refine kept.setPool here rfl fun b inside => ?_
    rcases List.mem_append.mp inside with old | last
    · exact idle b old
    · obtain ⟨other, same, owned⟩ := kept.held handle member
      rw [here] at same
      cases same
      rw [List.mem_singleton.mp last]
      exact (rules.burned owned (returns room)).1
  · rw [result]
    exact kept.setPool here rfl idle

theorem Kept.grow (kept : Kept rules s) {p : ι} {pool after : PoolInner} {targetSize : Nat}
    (here : s.pools p = some pool) (done : pool.grow targetSize = .ok after) :
    Kept rules (s.setPool p after) := by
  obtain ⟨buffers, pushed, rfl⟩ := grow_cases done
  refine kept.setPool here rfl fun b member => ?_
  rcases pushFresh_mem pushed member with old | fresh
  · exact kept.idle p pool here b old
  · exact rules.fresh fresh

theorem kept_step (kept : Kept rules s) {action : Action ι} {t : World ι}
    (allowed : allows rules s action) (step : Step s action t) : Kept rules t := by
  cases step with
  | new absent made =>
    obtain ⟨buffers, pushed, rfl⟩ := new_cases made
    refine kept.newPool absent fun b member => ?_
    rcases pushFresh_mem pushed member with none | fresh
    · cases none
    · exact rules.fresh fresh
  | acquire here done => exact kept.acquire here done
  | drop found here =>
    have returned := kept.dropHandle (List.mem_of_getElem? found) here (allowed _ _ found here)
    exact returned.fewer List.eraseIdx_subset
  | dropNow found => exact kept.fewer List.eraseIdx_subset
  | leak found => exact kept.fewer List.eraseIdx_subset
  | grow here done => exact kept.grow here done
  | shrink here =>
    exact kept.setPool here rfl fun b member =>
      kept.idle _ _ here b (List.take_subset _ _ member)
  | clear here =>
    refine kept.setPool here rfl fun b member => ?_
    cases member
  | use found stepped =>
    exact kept.edit found fun _ _ owned => rules.used owned (allowed _ found) stepped
  | replace found => exact kept.edit found fun pool here _ => allowed _ pool found here

theorem acquired_ready (kept : Kept rules s) {p : ι} {t : World ι} (taken : Taken s (.acquire p) t) :
    ∃ pool b, s.pools p = some pool ∧ t.held = ⟨p, b⟩ :: s.held ∧ rules.ready pool.config b := by
  cases step_of_taken taken with
  | acquire here done => exact ⟨_, _, here, rfl, acquire_ready kept here done⟩

theorem kept_run {step : World ι → Action ι → World ι → Prop} {t : World ι}
    (run : Reaches step World.empty t)
    (allowed : ∀ s action t, Kept rules s → step s action t →
      allows rules s action ∧ Taken s action t) : Kept rules t := by
  refine run.keeps (kept_empty rules) fun s action t kept taken => ?_
  obtain ⟨asked, next⟩ := allowed s action t kept taken
  exact kept_step kept asked (step_of_taken next)

end

end

end Secbuf.StandardPool
