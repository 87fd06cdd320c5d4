import Secbuf.StandardLane

/-! How many buffers a mutex-based pool keeps idle. A returned buffer and a growing pool are held
against `max_pool_size`; the buffers the pool is made with are not. -/

namespace Secbuf.PoolCap
open Calls Storage BufferCore Custody StandardPool

def Capped (pool : PoolInner) : Prop := pool.available ≤ pool.config.maxPoolSize

theorem capped_acquire {pool after : PoolInner} {buffer : Buffer} (capped : Capped pool)
    (done : pool.acquire = .ok (buffer, after)) : Capped after := by
  rcases acquire_cases done with ⟨-, rfl⟩ | ⟨-, rfl⟩
  · refine le_trans ?_ capped
    simp only [PoolInner.available, List.length_dropLast]
    omega
  · exact capped

theorem capped_dropHandle {pool : PoolInner} (capped : Capped pool) (buffer : Buffer) :
    Capped (pool.dropHandle buffer) := by
  rcases dropHandle_cases pool buffer with ⟨room, result⟩ | result
  · rw [result]
    simp only [Capped, PoolInner.available, List.length_append, List.length_singleton]
    omega
  · rw [result]
    exact capped

theorem capped_grow {pool after : PoolInner} {targetSize : Nat} (capped : Capped pool)
    (done : pool.grow targetSize = .ok after) : Capped after := by
  obtain ⟨buffers, pushed, rfl⟩ := grow_cases done
  have length := pushFresh_length pushed
  simp only [Capped, PoolInner.available] at capped ⊢
  omega

theorem capped_change {pool after : PoolInner} {n got lost m : Nat} (capped : Capped pool)
    (change : Change pool n got lost after m) : Capped after := by
  cases change with
  | elsewhere => exact capped
  | acquire done => exact capped_acquire capped done
  | drop buffer => exact capped_dropHandle capped buffer
  | lose => exact capped
  | grow done => exact capped_grow capped done
  | shrink =>
    refine le_trans ?_ capped
    simp only [PoolInner.available, PoolInner.shrink, List.length_take]
    omega
  | clear => exact Nat.zero_le _

theorem new_available {config : PoolConfig} {pool : PoolInner}
    (made : PoolInner.new config = .ok pool) :
    pool.available = config.minPoolSize ∧ pool.config = config := by
  obtain ⟨buffers, pushed, rfl⟩ := new_cases made
  exact ⟨(pushFresh_length pushed).trans (Nat.zero_add _), rfl⟩

section
variable {ι : Type} [DecidableEq ι] {s t : World ι} {p : ι}

theorem new_taken {config : PoolConfig} (taken : Taken s (.new p config) t) :
    ∃ pool, PoolInner.new config = .ok pool ∧ t.pools p = some pool := by
  cases step_of_taken taken with
  | new absent made => exact ⟨_, made, by simp [World.setPool]⟩

theorem capped_run (run : Reaches Taken s t) {pool : PoolInner} (here : s.pools p = some pool)
    (capped : Capped pool) :
    ∃ after, t.pools p = some after ∧ Capped after ∧ after.config = pool.config := by
  refine run.keeps (I := fun u => ∃ after, u.pools p = some after ∧ Capped after ∧
    after.config = pool.config) ⟨pool, here, capped, rfl⟩ ?_
  rintro u action v ⟨before, there, below, same⟩ taken
  obtain ⟨after, result, change⟩ := change_of_step (step_of_taken taken) there
  exact ⟨after, result, capped_change below change, (change_config change).trans same⟩

/-- A pool never keeps more idle buffers than `max_pool_size`, whatever is called on it and on
the others, exactly where it does not start out with more. -/
theorem available_capped_iff {config : PoolConfig} (made : Taken s (.new p config) t) :
    (∀ u, Reaches Taken t u → ∀ pool, u.pools p = some pool →
      pool.available ≤ config.maxPoolSize) ↔ config.minPoolSize ≤ config.maxPoolSize := by
  obtain ⟨pool, new, here⟩ := new_taken made
  obtain ⟨idle, rfl⟩ := new_available new
  rw [← idle]
  constructor
  · intro always
    exact always t .refl pool here
  · intro capped u run other there
    obtain ⟨after, result, below, same⟩ := capped_run run here capped
    rw [result] at there
    cases there
    exact same ▸ below

theorem available_capped_two :
    ∃ s : World Unit, Taken World.empty (.new () ⟨8, 2, 1⟩) s ∧
      ∀ u, Reaches Taken s u → ∀ pool, u.pools () = some pool → pool.available ≤ 2 := by
  obtain ⟨s, made⟩ : ∃ s : World Unit, Taken World.empty (.new () ⟨8, 2, 1⟩) s := ⟨_, rfl⟩
  exact ⟨s, made, (available_capped_iff made).mpr (by decide)⟩

/-- Two buffers to start with and room for one. -/
theorem available_exceeds_cap :
    ∃ s : World Unit, ∃ pool, Taken World.empty (.new () ⟨8, 1, 2⟩) s ∧
      s.pools () = some pool ∧ pool.available = 2 ∧
      ¬ ∀ u, Reaches Taken s u → ∀ pool, u.pools () = some pool → pool.available ≤ 1 := by
  refine ⟨_, _, rfl, rfl, rfl, fun always => ?_⟩
  exact absurd (always _ .refl _ rfl) (by decide)

end

end Secbuf.PoolCap
