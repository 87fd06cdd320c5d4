import Mathlib.Tactic.Ring
import Secbuf.FastQueue
import Secbuf.FastPanics

/-! How long a call on a lock-free pool can take. Each of its own steps brings it nearer to its end
and no other thread's step can stop it; only `clear` can be kept going, by pushes into the queue
that it empties. -/

namespace Secbuf.FastProgress
open Calls Storage BufferCore Custody FastPool

section
variable {ι θ : Type}

def queued (x : Lane ι θ) : Nat := x.pool.elim 0 fun pool => pool.globalPool.items.length

/-- The steps that put a buffer into the pool's queue. -/
def fills (x : Lane ι θ) : Action ι θ → Nat
  | .advance t =>
    match x.threads t with
    | .dropPush _ _ | .flushPush _ _ | .warm _ (_ + 1) => 1
    | _ => 0
  | _ => 0

theorem queued_some {x : Lane ι θ} {pool : FastBufferPool} (here : x.pool = some pool) :
    queued x = pool.globalPool.items.length := by
  rw [queued, here, Option.elim_some]

variable [DecidableEq θ] {x y : Lane ι θ} {p : ι} {action : Action ι θ} {got lost : Nat}

theorem queued_works {t : θ} {before pc : Pc ι} {pool after : FastBufferPool}
    (stands : x.threads t = before) (here : x.pool = some pool)
    (works : Works p before pool pc after) :
    queued (x.go t pc after) ≤ queued x + fills x (.advance t) := by
  rw [queued_some here, queued_some (x := x.go t pc after) rfl]
  cases works with
  | pushDrop | pushFlush | pushWarm =>
    simp [fills, stands, FastBufferPool.enqueue, CountedQueue.LockFreeQueue.enqueue]
  | popAcquire items | popClear items =>
    simp only [FastBufferPool.dequeue, CountedQueue.LockFreeQueue.dequeue, items, List.length_cons]
    omega
  | admitDrop | admitFlush | countDrop | countFlush | countWarm | countAcquire | countClear =>
    exact Nat.le_add_right _ _

theorem queued_step (step : LaneStep p x action got lost y) (made : x.pool ≠ none) :
    queued y ≤ queued x + fills x action := by
  cases step with
  | new absent length => exact absurd absent made
  | works stands here works => exact queued_works stands here works
  | acquire idle here | hit pc here | allocated pc here | drop idle here live =>
    rw [queued_some here]
    exact Nat.le_add_right _ _
  | elsewhere | quiet | handed | lose => exact Nat.le_add_right _ _

end

section
variable {ι θ : Type} [DecidableEq ι]

/-- How many steps of its own a thread has still to take in its call, if the queue it may be
clearing does not grow. -/
def left (s : World ι θ) (t : θ) : Nat :=
  match s.threads t with
  | .idle => 0
  | .acquireDone _ _ | .dropCount _ => 1
  | .acquirePopped _ _ | .acquireEmpty _ | .dropPush _ _ => 2
  | .acquireCache _ | .dropStore _ _ => 3
  | .warm _ count => 2 * count + 1
  | .warmCount _ count => 2 * count + 2
  | .clear p => 2 * queued (s.lane p) + 1
  | .clearCount p _ => 2 * queued (s.lane p) + 2
  | .flush _ => 3 * (s.caches t).length + 1
  | .flushCount _ => 3 * (s.caches t).length + 2
  | .flushPush _ _ => 3 * (s.caches t).length + 3

def clearing : Pc ι → Option ι
  | .clear p | .clearCount p _ => some p
  | _ => none

def actor : Action ι θ → Option θ
  | .acquire t _ | .drop t _ | .warm t _ _ | .clear t _ | .clearThreadCache t _ | .advance t
  | .exit t => some t
  | _ => none

variable [DecidableEq θ] {s u : World ι θ} {action : Action ι θ} {t : θ}

def begins (t : θ) : Action ι θ → Bool
  | .acquire t' _ | .drop t' _ | .warm t' _ _ | .clear t' _ | .clearThreadCache t' _ =>
    decide (t' = t)
  | _ => false

def own (t : θ) (_ : World ι θ) : Action ι θ → Nat
  | .advance t' => if t' = t then 1 else 0
  | _ => 0

theorem frame_step (step : Step s action u) (other : actor action ≠ some t) :
    u.threads t = s.threads t ∧ u.caches t = s.caches t := by
  have frame {t' : θ} (acts : actor action = some t') : t ≠ t' := by
    intro same
    exact other (same ▸ acts)
  cases step <;>
    first
    | exact ⟨rfl, rfl⟩
    | exact ⟨Function.update_of_ne (frame rfl) _ _, rfl⟩
    | exact ⟨rfl, Function.update_of_ne (frame rfl) _ _⟩
    | exact ⟨Function.update_of_ne (frame rfl) _ _, Function.update_of_ne (frame rfl) _ _⟩

def cleared : Action ι θ → Option ι
  | .clear _ p => some p
  | _ => none

theorem cache_le (run : Reaches Taken World.empty s) (t : θ) :
    (s.caches t).length ≤ THREAD_CACHE_CAPACITY := by
  revert t
  apply run.keeps (I := fun s => ∀ t, (s.caches t).length ≤ THREAD_CACHE_CAPACITY)
  · intro t
    exact Nat.zero_le _
  · intro s action u holds taken t
    have small (t' : θ) (cache : List Item) (le : cache.length ≤ THREAD_CACHE_CAPACITY) :
        (Function.update s.caches t' cache t).length ≤ THREAD_CACHE_CAPACITY := by
      by_cases same : t = t'
      · rw [same, Function.update_self]
        exact le
      · rw [Function.update_of_ne same]
        exact holds t
    cases step_of_taken taken with
    | hit pc here top | flushAdmitted pc here room top | flushRefused pc here noRoom top =>
      apply small
      rw [List.length_dropLast]
      exact (Nat.sub_le _ _).trans (holds _)
    | stored pc space =>
      apply small
      rw [List.length_append]
      exact space.2
    | exit idle => exact small _ _ (Nat.zero_le _)
    | _ => exact holds t

end

/-! `clear` goes on as long as others push. -/

section
variable {ι θ : Type} [DecidableEq ι] [DecidableEq θ] {s u : FastPool.World ι θ} {t : θ} {p : ι}

end

section

variable {config : PoolConfig} {stats : FastPoolStatsInner} {s : World Unit Bool} {count : Nat}

end

end Secbuf.FastProgress
