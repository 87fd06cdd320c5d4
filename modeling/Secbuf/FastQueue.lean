import Secbuf.FastLane

/-! The global queue of a lock-free pool is a counted queue: whatever the calls on the pool do,
the queue and its counter go through steps of pushes and pops. -/

namespace Secbuf.FastPool
open Calls Storage BufferCore Custody Tally

section
variable {ι θ : Type}

/-- Where a call stands with the queue: between an item and its count, or nowhere. -/
def Pc.counting : Pc ι → CountedQueue.Pc Item
  | .dropCount _ | .flushCount _ | .warmCount _ _ => .pushed
  | .acquirePopped _ item | .clearCount _ item => .popped item
  | _ => .idle

def Lane.queue (x : Lane ι θ) (pool : FastBufferPool) : CountedQueue.World Item θ :=
  ⟨pool.globalPool, fun t => (x.threads t).counting⟩

def Lane.Asleep (x : Lane ι θ) : Prop := x.pool = none → (∀ t, x.threads t = .idle) ∧ x.live = 0

variable [DecidableEq θ] {p : ι} {x y : Lane ι θ} {action : Action ι θ} {got lost : Nat}

theorem calls_go {w : Pc ι → Nat} (mostly : Mostly .idle x.threads) (zero : w .idle = 0) {t : θ}
    {before : Pc ι} (stands : x.threads t = before) (pc : Pc ι) (after : FastBufferPool) :
    tally w (x.go t pc after).threads + w before = tally w x.threads + w pc := by
  rw [← stands]
  exact tally_update mostly zero t pc

theorem calls_stay {w : Pc ι → Nat} (mostly : Mostly .idle x.threads) (zero : w .idle = 0) {t : θ}
    {before : Pc ι} (stands : x.threads t = before) (pc : Pc ι) :
    tally w (x.stay t pc).threads + w before = tally w x.threads + w pc := by
  rw [← stands]
  exact tally_update mostly zero t pc

theorem queue_update (x : Lane ι θ) (t : θ) (pc : Pc ι) (pool after : FastBufferPool) :
    (⟨after.globalPool, fun other => (Function.update x.threads t pc other).counting⟩ :
      CountedQueue.World Item θ) = (x.queue pool).set after.globalPool t pc.counting := by
  have threads : (fun other => (Function.update x.threads t pc other).counting) =
      Function.update (fun other => (x.threads other).counting) t pc.counting := by
    funext other
    by_cases same : other = t
    · rw [same, Function.update_self, Function.update_self]
    · rw [Function.update_of_ne same, Function.update_of_ne same]
  rw [threads]
  rfl

theorem queue_still {t : θ} {before pc : Pc ι} {pool after : FastBufferPool}
    (stands : x.threads t = before) (same : pc.counting = before.counting)
    (queue : after.globalPool = pool.globalPool) :
    (x.queue pool).set after.globalPool t pc.counting = x.queue pool := by
  have still : (x.queue pool).threads t = pc.counting := by
    rw [same, ← stands]
    rfl
  rw [CountedQueue.World.set, queue, ← still, Function.update_eq_self]
  rfl

theorem quiet_counting {before pc : Pc ι} (quiet : Quiet p before pc) :
    pc.counting = before.counting := by
  cases quiet <;> rfl

theorem works_queue {t : θ} {before pc : Pc ι} {pool after : FastBufferPool}
    (stands : x.threads t = before) (works : Works p before pool pc after) :
    (x.queue pool).set after.globalPool t pc.counting = x.queue pool ∨
      ∃ action, CountedQueue.Step (x.queue pool) action
        ((x.queue pool).set after.globalPool t pc.counting) := by
  have at' : (x.queue pool).threads t = before.counting := by
    rw [← stands]
    rfl
  cases works with
  | admitDrop room => exact Or.inl (queue_still stands rfl rfl)
  | admitFlush room => exact Or.inl (queue_still stands rfl rfl)
  | pushDrop => exact Or.inr ⟨_, .push at'⟩
  | pushFlush => exact Or.inr ⟨_, .push at'⟩
  | pushWarm => exact Or.inr ⟨_, .push at'⟩
  | countDrop => exact Or.inr ⟨_, .countUp at'⟩
  | countFlush => exact Or.inr ⟨_, .countUp at'⟩
  | countWarm => exact Or.inr ⟨_, .countUp at'⟩
  | popAcquire items => exact Or.inr ⟨_, .pop at' items⟩
  | popClear items => exact Or.inr ⟨_, .pop at' items⟩
  | countAcquire => exact Or.inr ⟨_, .countDown at'⟩
  | countClear => exact Or.inr ⟨_, .countDown at'⟩

theorem queue_step {pool : FastBufferPool} (step : LaneStep p x action got lost y)
    (here : x.pool = some pool) : ∃ after, y.pool = some after ∧
      (y.queue after = x.queue pool ∨
        ∃ action, CountedQueue.Step (x.queue pool) action (y.queue after)) := by
  cases step with
  | elsewhere => exact ⟨pool, here, Or.inl rfl⟩
  | new absent length =>
    rw [here] at absent
    cases absent
  | works stands found works =>
    rw [here] at found
    cases found
    refine ⟨_, rfl, ?_⟩
    have steps := works_queue stands works
    rw [← queue_update] at steps
    exact steps
  | quiet stands quiet starts =>
    refine ⟨pool, here, Or.inl ?_⟩
    exact (queue_update x _ _ pool pool).trans (queue_still stands (quiet_counting quiet) rfl)
  | acquire idle found =>
    rw [here] at found
    cases found
    exact ⟨_, rfl, Or.inl ((queue_update x _ _ pool _).trans (queue_still idle rfl rfl))⟩
  | hit pc found =>
    rw [here] at found
    cases found
    exact ⟨_, rfl, Or.inl ((queue_update x _ _ pool _).trans (queue_still pc rfl rfl))⟩
  | allocated pc found =>
    rw [here] at found
    cases found
    exact ⟨_, rfl, Or.inl ((queue_update x _ _ pool _).trans (queue_still pc rfl rfl))⟩
  | handed pc =>
    exact ⟨pool, here, Or.inl ((queue_update x _ _ pool pool).trans (queue_still pc rfl rfl))⟩
  | drop idle found live =>
    rw [here] at found
    cases found
    exact ⟨_, rfl, Or.inl ((queue_update x _ _ pool _).trans (queue_still idle rfl rfl))⟩
  | lose live => exact ⟨pool, here, Or.inl rfl⟩

theorem asleep_step (asleep : x.Asleep) (step : LaneStep p x action got lost y) : y.Asleep := by
  cases step with
  | elsewhere => exact asleep
  | quiet stands quiet starts =>
    intro absent
    exact absurd (stands.symm.trans ((asleep absent).1 _)) (starts absent)
  | handed pc =>
    intro absent
    exact absurd (((asleep absent).1 _).symm.trans pc) (by simp)
  | lose live =>
    intro absent
    exact absurd ((asleep absent).2.symm.trans live) (by omega)
  | _ => exact fun absent => nomatch absent

theorem mostly_step (mostly : Mostly .idle x.threads) (step : LaneStep p x action got lost y) :
    Mostly .idle y.threads := by
  cases step with
  | elsewhere => exact mostly
  | new => exact mostly
  | lose => exact mostly
  | works | quiet | acquire | hit | allocated | handed | drop => exact mostly.update _ _

omit [DecidableEq θ] in
theorem congruent_made (idle : ∀ t, x.threads t = .idle) {config : PoolConfig} {items : List Item}
    (length : items.length = config.minPoolSize) :
    CountedQueue.Congruent
      (x.queue ⟨⟨items, config.minPoolSize % 2 ^ 64⟩, config, ⟨0, 0, 0, 0⟩⟩) := by
  have threads : ∀ t, (x.threads t).counting = .idle := fun t => congrArg Pc.counting (idle t)
  have pushes : CountedQueue.pushing
      (x.queue ⟨⟨items, config.minPoolSize % 2 ^ 64⟩, config, ⟨0, 0, 0, 0⟩⟩) = 0 :=
    tally_zero fun t => congrArg CountedQueue.Pc.pushing (threads t)
  have pops : CountedQueue.popping
      (x.queue ⟨⟨items, config.minPoolSize % 2 ^ 64⟩, config, ⟨0, 0, 0, 0⟩⟩) = 0 :=
    tally_zero fun t => congrArg CountedQueue.Pc.popping (threads t)
  refine ⟨?_, Nat.mod_lt _ (by decide), ?_⟩
  · simp only [Lane.queue, threads]
    exact mostly_const
  · rw [pushes, pops]
    simp only [Lane.queue, length]
    omega

/-- What every run keeps of one pool: nothing is on it before it is made, only finitely many
calls are on it, and its counter is congruent to its queue. -/
structure Lane.Tracked (x : Lane ι θ) : Prop where
  asleep : x.Asleep
  mostly : Mostly .idle x.threads
  congruent : ∀ pool, x.pool = some pool → CountedQueue.Congruent (x.queue pool)

theorem tracked_step (tracked : x.Tracked) (step : LaneStep p x action got lost y) : y.Tracked := by
  refine ⟨asleep_step tracked.asleep step, mostly_step tracked.mostly step, fun after there => ?_⟩
  cases before : x.pool with
  | some pool =>
    obtain ⟨result, found, same | ⟨inner, moved⟩⟩ := queue_step step before
    · rw [there] at found
      cases found
      exact same ▸ tracked.congruent pool before
    · rw [there] at found
      cases found
      exact CountedQueue.congruent_step (tracked.congruent pool before) moved
  | none =>
    cases step with
    | elsewhere => exact absurd (before.symm.trans there) (by simp)
    | new absent length =>
      cases there
      exact congruent_made (tracked.asleep before).1 length
    | works stands here => exact absurd (before.symm.trans here) (by simp)
    | quiet => exact absurd (before.symm.trans there) (by simp)
    | acquire idle here => exact absurd (before.symm.trans here) (by simp)
    | hit pc here => exact absurd (before.symm.trans here) (by simp)
    | allocated pc here => exact absurd (before.symm.trans here) (by simp)
    | handed => exact absurd (before.symm.trans there) (by simp)
    | drop idle here => exact absurd (before.symm.trans here) (by simp)
    | lose => exact absurd (before.symm.trans there) (by simp)

end

section
variable {ι θ : Type} [DecidableEq ι] [DecidableEq θ] {s : World ι θ}

omit [DecidableEq θ] in
theorem tracked_empty (p : ι) : ((World.empty : World ι θ).lane p).Tracked :=
  ⟨fun _ => ⟨fun _ => rfl, rfl⟩, mostly_const, fun _ there => nomatch there⟩

theorem tracked_run (run : Reaches Taken World.empty s) (p : ι) : (s.lane p).Tracked :=
  run.keeps (tracked_empty p) fun _ _ _ tracked taken =>
    tracked_step tracked (lane_step (step_of_taken taken) p)

end

end Secbuf.FastPool
