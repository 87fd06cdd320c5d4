import Secbuf.FastCounts

/-! The counters of a lock-free pool as any moment finds them. Every call of `acquire` is counted
before it counts a cache hit or an allocation, and before its handle can be dropped. -/

namespace Secbuf.CounterOrder
open Calls Storage BufferCore Custody Tally FastPool FastCounts

/-- No counter is ahead of `acquired`, with the calls that are still looking for a buffer and
the buffers that may still be returned. -/
structure Ordered (stats : FastPoolStatsInner) (looking out : Nat) : Prop where
  counted : stats.acquired < 2 ^ 64
  looked : stats.allocated + stats.cacheHits + looking ≤ stats.acquired
  given : stats.returned + out ≤ stats.acquired

section
variable {stats : FastPoolStatsInner} {looking out : Nat}

theorem Ordered.mono (ordered : Ordered stats looking out) {looking' out' : Nat}
    (fewer : looking' ≤ looking) (fewer' : out' ≤ out) : Ordered stats looking' out' :=
  ⟨ordered.counted, by have := ordered.looked; omega, by have := ordered.given; omega⟩

theorem Ordered.hit (ordered : Ordered stats (looking + 1) out) :
    Ordered { stats with cacheHits := usizeAdd stats.cacheHits 1 } looking out := by
  obtain ⟨counted, looked, given⟩ := ordered
  refine ⟨counted, ?_, given⟩
  simp only
  rw [usizeAdd_of_lt (by omega)]
  omega

theorem Ordered.allocate (ordered : Ordered stats (looking + 1) out) :
    Ordered { stats with allocated := usizeAdd stats.allocated 1 } looking out := by
  obtain ⟨counted, looked, given⟩ := ordered
  refine ⟨counted, ?_, given⟩
  simp only
  rw [usizeAdd_of_lt (by omega)]
  omega

theorem Ordered.giveBack (ordered : Ordered stats looking (out + 1)) :
    Ordered { stats with returned := usizeAdd stats.returned 1 } looking out := by
  obtain ⟨counted, looked, given⟩ := ordered
  refine ⟨counted, looked, ?_⟩
  simp only
  rw [usizeAdd_of_lt (by omega)]
  omega

theorem Ordered.acquire (ordered : Ordered stats looking out) (small : stats.acquired + 1 < 2 ^ 64) :
    Ordered { stats with acquired := usizeAdd stats.acquired 1 } (looking + 1) (out + 1) := by
  obtain ⟨counted, looked, given⟩ := ordered
  have sum := usizeAdd_of_lt small
  exact ⟨by rw [sum]; exact small, by simp only [sum]; omega, by simp only [sum]; omega⟩

theorem Ordered.counts {stats' : FastPoolStatsInner} {looking' out' got lost : Nat}
    (ordered : Ordered stats looking out) (small : stats.acquired + got < 2 ^ 64)
    (counts : Counts stats looking out got lost stats' looking' out') :
    Ordered stats' looking' out' := by
  cases counts with
  | nothing fewer left => exact ordered.mono fewer (by omega)
  | acquired => exact ordered.acquire small
  | hit left =>
    rw [← left] at ordered
    exact ordered.hit
  | allocated left =>
    rw [← left] at ordered
    exact ordered.allocate
  | returned left =>
    rw [← left] at ordered
    exact ordered.giveBack

end

section
variable {ι θ : Type} [DecidableEq θ] {p : ι} {x y : Lane ι θ} {action : Action ι θ}
  {got lost : Nat}

def InOrder (x : Lane ι θ) : Prop := ∀ pool, x.pool = some pool →
  Ordered pool.stats (looking x) (x.live + acquiring x)

theorem threads_fall (step : LaneStep p x action got lost y) (t : θ)
    (other : ∀ q, action ≠ .acquire t q) :
    lookingAt (y.threads t) ≤ lookingAt (x.threads t) ∧
      acquiringAt (y.threads t) ≤ acquiringAt (x.threads t) := by
  have moved : ∀ {a : θ} {before pc : Pc ι}, x.threads a = before →
      lookingAt pc ≤ lookingAt before ∧ acquiringAt pc ≤ acquiringAt before →
      lookingAt (Function.update x.threads a pc t) ≤ lookingAt (x.threads t) ∧
        acquiringAt (Function.update x.threads a pc t) ≤ acquiringAt (x.threads t) := by
    rintro a before pc rfl fall
    by_cases same : t = a
    · rw [same, Function.update_self]
      exact fall
    · rw [Function.update_of_ne same]
      exact ⟨le_rfl, le_rfl⟩
  cases step with
  | elsewhere | new | lose => exact ⟨le_rfl, le_rfl⟩
  | works stands here works =>
    exact moved stands ⟨(works_counts works).2.1, (works_counts works).2.2.le⟩
  | quiet stands quiet starts =>
    exact moved stands ⟨(quiet_counts quiet).1.le, (quiet_counts quiet).2.le⟩
  | acquire idle here =>
    rename_i a pool
    have different : t ≠ a := by
      rintro rfl
      exact other p rfl
    simp only [Lane.go, Function.update_of_ne different]
    exact ⟨le_rfl, le_rfl⟩
  | hit pc here => exact moved pc ⟨Nat.zero_le _, le_rfl⟩
  | allocated pc here => exact moved pc ⟨Nat.zero_le _, le_rfl⟩
  | handed pc => exact moved pc ⟨le_rfl, Nat.zero_le _⟩
  | drop idle here live => exact moved idle ⟨le_rfl, le_rfl⟩

theorem inOrder_step (tracked : x.Tracked) (ordered : InOrder x)
    (small : ∀ pool, x.pool = some pool → pool.stats.acquired + got < 2 ^ 64)
    (step : LaneStep p x action got lost y) : InOrder y := by
  intro after there
  cases before : x.pool with
  | some pool =>
    exact (ordered pool before).counts (small pool before) (counts_step tracked step before there)
  | none =>
    obtain ⟨-, fresh⟩ := counts_unmade tracked step before
    obtain ⟨stats, looks, out⟩ := fresh after there
    rw [stats, looks, out]
    exact ⟨by decide, le_rfl, le_rfl⟩

end

end Secbuf.CounterOrder
