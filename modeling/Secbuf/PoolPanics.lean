import Secbuf.FastPanics
import Secbuf.StandardPanics

/-! Which configurations can be trusted after `new` has returned. Construction makes a buffer only
if it has to warm the pool, and `BUF_MAX_SIZE` is checked nowhere else before the first `acquire`
that finds the pool empty. -/

namespace Secbuf.PoolPanics
open Calls BufferCore Custody Unwinding

/-- On a pool of either kind no call panics after a `new` that returned, exactly where the pool was
warmed or its buffers are not too large. On the lock-free pool this leaves out the calls that ask
for a thread's cache after it is gone; those always panic. -/
theorem reliable_config_iff (config : PoolConfig) :
    (StandardPool.Reliable config ↔ (config.minPoolSize = 0 → config.bufferSize ≤ BUF_MAX_SIZE)) ∧
      (FastPool.Reliable config ↔ (config.minPoolSize = 0 → config.bufferSize ≤ BUF_MAX_SIZE)) ∧
      ∀ (ι θ : Type) [DecidableEq ι] [DecidableEq θ] (s : FastPool.World ι θ)
        (request : Request (FastPool.Action ι θ) ι), FastPool.calls s request ≠ none →
          FastPool.CacheGone s request → Panics FastPool.calls s request := by
  refine ⟨StandardPool.reliable_iff config, FastPool.reliable_iff config, ?_⟩
  intro ι θ _ _ s request can gone
  exact FastPool.panics_of_cacheGone gone can

theorem reliable_config_default :
    StandardPool.Reliable ⟨8192, 100, 10⟩ ∧ FastPool.Reliable ⟨8192, 100, 10⟩ ∧
      ∃ s : FastPool.World Unit Unit,
        exec FastPool.next FastPool.World.empty [.new () ⟨8, 1, 0⟩, .exit ()] = some s ∧
          Panics FastPool.calls s (.act (.acquire () ())) := by
  obtain ⟨standard, fast, gone⟩ := reliable_config_iff ⟨8192, 100, 10⟩
  refine ⟨standard.mpr (by decide), fast.mpr (by decide), _, rfl, ?_⟩
  exact gone Unit Unit _ _ (Option.some_ne_none _) rfl

def oversized : PoolConfig := ⟨BUF_MAX_SIZE + 1, 10, 0⟩

/-- `new` returns and `acquire` panics, on both pools. The mutex is poisoned then, and `stats` and
`shrink` panic too. -/
theorem cold_pool_panics :
    (∃ s t, StandardPool.calls StandardPool.Locked.empty (.act (.new () oversized)) =
        some (.returned s) ∧
      StandardPool.calls s (.act (.acquire ())) = some (.panicked t) ∧
      Panics StandardPool.calls t (.stats ()) ∧
      Panics StandardPool.calls t (.act (.shrink ())) ∧ ¬ StandardPool.Reliable oversized) ∧
    (∃ s u : FastPool.World Unit Unit,
      FastPool.calls FastPool.World.empty (.act (.new () oversized)) = some (.returned s) ∧
      exec FastPool.next s [.acquire () (), .advance ()] = some u ∧
      Panics FastPool.calls u (.act (.advance ())) ∧ ¬ FastPool.Reliable oversized) ∧
    ∃ s : FastPool.World Unit Unit,
      exec FastPool.next FastPool.World.empty [.new () ⟨8, 1, 0⟩, .exit ()] = some s ∧
      Panics FastPool.calls s (.act (.acquire () ())) := by
  have large : ¬ oversized.bufferSize ≤ BUF_MAX_SIZE := Nat.not_succ_le_self _
  have standard : ¬ StandardPool.Reliable oversized := by
    intro reliable
    exact large ((StandardPool.reliable_iff oversized).mp reliable rfl)
  have fast : ¬ FastPool.Reliable oversized := by
    intro reliable
    exact large ((FastPool.reliable_iff oversized).mp reliable rfl)
  refine ⟨⟨_, _, StandardPool.cold_made rfl, rfl, ⟨_, rfl⟩, ⟨_, rfl⟩, standard⟩, ?_, _, rfl, _, rfl⟩
  exact ⟨_, _, FastPool.cold_made rfl, rfl, FastPool.coldAcquiring_panics large, fast⟩

end Secbuf.PoolPanics
