import Secbuf.LockedProgress
import Secbuf.StandardInterleaved

/-! How long the calls on a mutex-based pool hold its mutex. None of them takes a second one, so
there is no deadlock; all but `grow` are over after a few accesses, and `grow` after a few for
each buffer that it makes. -/

namespace Secbuf.StandardProgress
open Calls Storage BufferCore Custody StandardPool LockedCalls LockedProgress StandardInterleaved

/-- The most accesses a call makes under the mutex, on a pool of at most `cap` idle buffers. -/
def longest (cap : Nat) : PoolCall → Nat
  | .acquire => 8
  | .drop _ => 6
  | .available | .clear => 2
  | .shrink => 4
  | .stats => 7
  | .grow targetSize => 2 * min targetSize cap + 4

def Capped (cap : Nat) (g : Guarded) : Prop := g.inner.config.maxPoolSize = cap

section
variable {cap n : Nat}

theorem unwrapped_within {rest : PoolBody} (within : Within (Capped cap) n rest) :
    Within (Capped cap) (n + 1) (unwrapped rest) := by
  apply Within.step (fun _ capped => capped)
  intro g _
  split_ifs
  · exact .done
  · exact within

theorem reads_within {next : PoolInner → PoolBody}
    (within : ∀ pool, pool.config.maxPoolSize = cap → Within (Capped cap) n (next pool)) :
    Within (Capped cap) (n + 1) (reads next) :=
  .step (fun _ capped => capped) fun g capped => within g.inner capped

theorem panics_within : Within (Capped cap) 1 panics := .step (fun _ capped => capped) fun _ _ => .done

theorem last_within {change : Guarded → Guarded} (keeps : ∀ g, Capped cap g → Capped cap (change g)) :
    Within (Capped cap) 1 (.step change fun _ => .done PoolAnswer.unit) :=
  .step keeps fun _ _ => .done

theorem counts_within {counter : PoolInner → Nat} {store : Nat → Guarded → Guarded} {rest : PoolBody}
    (keeps : ∀ count g, Capped cap g → Capped cap (store count g)) (within : Within (Capped cap) n rest) :
    Within (Capped cap) (n + 2) (counts counter store rest) := by
  apply reads_within
  intro pool _
  exact .step (keeps _) fun _ _ => within

theorem growLoop_within (target size rounds : Nat) :
    Within (Capped cap) (2 * rounds + 1) (growLoop target size rounds) := by
  induction rounds with
  | zero => exact reads_within fun _ _ => .done
  | succ rounds ih =>
    apply reads_within
    intro pool _
    split_ifs
    · cases Buffer.new size with
      | ok buffer => exact .step (fun _ capped => capped) fun _ _ => ih
      | error reason => exact panics_within.mono (by omega)
    · exact .done

theorem body_within (call : PoolCall) : Within (Capped cap) (longest cap call) (body call) := by
  cases call with
  | acquire =>
    apply unwrapped_within
    refine counts_within (fun _ _ capped => capped) ?_
    refine Within.step (fun _ capped => capped) fun g _ => ?_
    cases g.inner.buffers.getLast? with
    | some buffer => exact .done
    | none =>
      refine counts_within (fun _ _ capped => capped) ?_
      apply reads_within
      intro pool _
      cases Buffer.new pool.config.bufferSize with
      | ok buffer => exact .done
      | error reason => exact panics_within
  | drop buffer =>
    apply unwrapped_within
    refine counts_within (fun _ _ capped => capped) ?_
    apply reads_within
    intro first _
    apply reads_within
    intro second _
    split_ifs
    · exact last_within fun _ capped => capped
    · exact .done
  | available =>
    apply unwrapped_within
    exact reads_within fun _ _ => .done
  | stats =>
    apply unwrapped_within
    apply reads_within
    intro _ _
    apply reads_within
    intro _ _
    apply reads_within
    intro _ _
    apply reads_within
    intro _ _
    apply reads_within
    intro _ _
    exact reads_within fun _ _ => .done
  | shrink =>
    apply unwrapped_within
    apply reads_within
    intro _ _
    exact .step (fun _ capped => capped) fun _ _ => last_within fun _ capped => capped
  | clear =>
    apply unwrapped_within
    exact last_within fun _ capped => capped
  | grow targetSize =>
    apply unwrapped_within
    apply reads_within
    intro pool limit
    apply reads_within
    intro _ _
    rw [limit]
    exact growLoop_within _ _ _

end

/-- In every state of every interleaving of any threads' calls on mutex-based pools: a thread in a
call can go on, or waits for another that has its mutex and can go on; and a thread that has a mutex
lets it go after at most as many accesses of its own as its call takes at most, however the other
threads go on, and also where the call panics. -/
theorem mutex_let_go {ι θ : Type} [DecidableEq ι] [DecidableEq θ] (pools : ι → Guarded)
    {trace : List (Event (ι × PoolCall) PoolAnswer θ)} {s : Locks ι Guarded (ι × PoolCall) PoolAnswer θ}
    (shows : Shows (Stepwise (program ι)) (.start pools) trace s) :
    (∀ p t, s.owner p = some t → ∃ call rest, s.threads t = .inside (p, call) rest ∧
      ∀ turns u, exec (keepsLock (program ι) p t) s turns = some u →
        total (keepsLock (program ι) p t) (own t) s turns ≤
          longest (pools p).inner.config.maxPoolSize call) ∧
    ∀ t, s.threads t ≠ .idle → (∃ m, LockedProgress.next (program ι) s (.advance t) = some m) ∨
      ∃ call u, s.threads t = .waiting call ∧ s.owner call.1 = some u ∧ u ≠ t ∧
        ∃ m, LockedProgress.next (program ι) s (.advance u) = some m := by
  have bodies (call : ι × PoolCall) :
      Within (Capped (pools ((program ι).lock call)).inner.config.maxPoolSize)
        (longest (pools call.1).inner.config.maxPoolSize call.2) ((program ι).body call) :=
    body_within call.2
  have timely := timely_run (I := fun p => Capped (pools p).inner.config.maxPoolSize) bodies
    (fun _ => rfl) (reaches_of_shows shows)
  obtain ⟨bounded, goes⟩ := lets_go bodies timely
  constructor
  · intro p t holds
    obtain ⟨⟨q, call⟩, rest, stands, lock, spends⟩ := bounded p t holds
    have same : q = p := lock
    subst same
    exact ⟨call, rest, stands, spends⟩
  · exact goes

def emptyPool : Guarded := ⟨⟨[], ⟨8, 4, 0⟩, 0, 0, 0⟩, false⟩

def asked : Locks Unit Guarded (Unit × PoolCall) PoolAnswer Bool :=
  (Locks.start fun _ => emptyPool).setStage true (.waiting ((), .acquire))

def entered : Locks Unit Guarded (Unit × PoolCall) PoolAnswer Bool :=
  (asked.setOwner () (some true)).setStage true (.inside ((), .acquire) acquireBody)

theorem mutex_let_go_two :
    ∃ trace, ∃ s : Locks Unit Guarded (Unit × PoolCall) PoolAnswer Bool,
      Shows (Stepwise (program Unit)) (.start fun _ => emptyPool) trace s ∧
      s.owner () = some true ∧ s.threads false = .waiting ((), .available) ∧
      (∀ turns u, exec (keepsLock (program Unit) () true) s turns = some u →
        total (keepsLock (program Unit) () true) (own true) s turns ≤ 8) := by
  have calls : Stepwise (program Unit) (.start fun _ => emptyPool) (some (.called true ((), .acquire)))
      asked := .call rfl
  have enters : Stepwise (program Unit) asked none entered := .enter rfl rfl
  have waits : Stepwise (program Unit) entered (some (.called false ((), .available)))
      (entered.setStage false (.waiting ((), .available))) := .call rfl
  have shows := Shows.event calls (.silent enters (.event waits .refl))
  obtain ⟨call, rest, inside, spends⟩ := (mutex_let_go _ shows).1 () true rfl
  cases inside
  exact ⟨_, _, shows, rfl, rfl, spends⟩

end Secbuf.StandardProgress
