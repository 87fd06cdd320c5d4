import Mathlib.Algebra.Order.Field.Rat
import Mathlib.Tactic.Linarith
import Secbuf.FastPool
import Secbuf.StandardPool

/-! The statistics of both pools and the figures derived from them. A rate is computed with
doubles, each result rounded. -/

namespace Secbuf.Statistics
open StandardPool FastPool

/-- A rounding of exact results to doubles: it keeps their order, and the integers up to 2^53. -/
structure Rounding where
  round : ℚ → ℚ
  monotone : Monotone round
  exact : ∀ n : Nat, n ≤ 2 ^ 53 → round n = n

/-- Exact arithmetic is one of them. -/
instance : Inhabited Rounding := ⟨⟨id, monotone_id, fun _ _ => rfl⟩⟩

/-- `(part as f64 / whole as f64) * 100.0`, and zero for a whole of zero. -/
def percent (f64 : Rounding) (part whole : Nat) : ℚ :=
  if whole = 0 then 0 else f64.round (f64.round (f64.round part / f64.round whole) * 100)

theorem percent_le (f64 : Rounding) {part whole : Nat} (le : part ≤ whole) :
    percent f64 part whole ≤ 100 := by
  unfold percent
  split_ifs with zero
  · decide
  · have one : f64.round 1 = 1 := by simpa using f64.exact 1 (by decide)
    have hundred : f64.round 100 = 100 := by simpa using f64.exact 100 (by decide)
    have positive : 0 < f64.round whole := by
      have least : f64.round 1 ≤ f64.round whole :=
        f64.monotone (by exact_mod_cast Nat.pos_of_ne_zero zero)
      linarith
    have ordered : f64.round part ≤ f64.round whole := f64.monotone (by exact_mod_cast le)
    have quotient : f64.round (f64.round part / f64.round whole) ≤ 1 := by
      calc f64.round (f64.round part / f64.round whole) ≤ f64.round 1 :=
            f64.monotone ((div_le_one positive).mpr ordered)
        _ = 1 := one
    calc f64.round (f64.round (f64.round part / f64.round whole) * 100) ≤ f64.round 100 :=
          f64.monotone (by linarith)
      _ = 100 := hundred

structure PoolStats where
  available : Nat
  totalAllocated : Nat
  totalAcquired : Nat
  totalReturned : Nat
  bufferSize : Nat
  maxPoolSize : Nat
  deriving DecidableEq, Repr

def PoolStats.inUse (stats : PoolStats) : Nat := stats.totalAcquired - stats.totalReturned

def PoolStats.hitRate (f64 : Rounding) (stats : PoolStats) : ℚ :=
  percent f64 (stats.totalAcquired - stats.totalAllocated) stats.totalAcquired

structure FastPoolStats where
  available : Nat
  allocated : Nat
  acquired : Nat
  returned : Nat
  cacheHits : Nat
  threadLocalLost : Nat
  deriving DecidableEq, Repr

namespace FastPoolStats

def inUse (stats : FastPoolStats) : Nat := stats.acquired - stats.returned

def cacheHitRate (f64 : Rounding) (stats : FastPoolStats) : ℚ :=
  percent f64 stats.cacheHits stats.acquired

def poolHitRate (f64 : Rounding) (stats : FastPoolStats) : ℚ :=
  percent f64 (stats.acquired - stats.allocated) stats.acquired

end FastPoolStats

def stats (pool : PoolInner) : PoolStats where
  available := pool.buffers.length
  totalAllocated := pool.totalAllocated
  totalAcquired := pool.totalAcquired
  totalReturned := pool.totalReturned
  bufferSize := pool.config.bufferSize
  maxPoolSize := pool.config.maxPoolSize

/-- `stats()` of the lock-free pool, while nothing else runs. -/
def fastStats (pool : FastBufferPool) : FastPoolStats where
  available := pool.globalPool.len
  allocated := pool.stats.allocated
  acquired := pool.stats.acquired
  returned := pool.stats.returned
  cacheHits := pool.stats.cacheHits
  threadLocalLost := 0

end Secbuf.Statistics
