import Secbuf.FastQueue

/-! What one step counts on a lock-free pool, beside the calls that are still looking for a buffer
and the buffers that are out. The invariants of the counters follow from it. -/

namespace Secbuf.FastCounts
open Calls Storage BufferCore Custody Tally FastPool

def lookingAt {ι : Type} : Pc ι → Nat
  | .acquireCache _ | .acquireEmpty _ => 1
  | _ => 0

def acquiringAt {ι : Type} : Pc ι → Nat
  | .acquireCache _ | .acquirePopped _ _ | .acquireEmpty _ | .acquireDone _ _ => 1
  | _ => 0

section
variable {ι θ : Type}

noncomputable def looking (x : Lane ι θ) : Nat := tally lookingAt x.threads

noncomputable def acquiring (x : Lane ι θ) : Nat := tally acquiringAt x.threads

/-- What a step counts, between the calls that are looking and the buffers that are out before it
and after it; the first two numbers after those are the buffers taken and the handles lost. -/
inductive Counts (stats : FastPoolStatsInner) (looking out : Nat) :
    Nat → Nat → FastPoolStatsInner → Nat → Nat → Prop
  | nothing {lost looking' out' : Nat} (fewer : looking' ≤ looking) (left : out' + lost = out) :
      Counts stats looking out 0 lost stats looking' out'
  | acquired : Counts stats looking out 1 0
      { stats with acquired := usizeAdd stats.acquired 1 } (looking + 1) (out + 1)
  | hit {looking' : Nat} (left : looking' + 1 = looking) : Counts stats looking out 0 0
      { stats with cacheHits := usizeAdd stats.cacheHits 1 } looking' out
  | allocated {looking' : Nat} (left : looking' + 1 = looking) : Counts stats looking out 0 0
      { stats with allocated := usizeAdd stats.allocated 1 } looking' out
  | returned {out' : Nat} (left : out' + 1 = out) : Counts stats looking out 0 0
      { stats with returned := usizeAdd stats.returned 1 } looking out'

variable {p : ι} {x y : Lane ι θ} {action : Action ι θ} {got lost : Nat}

theorem works_counts {before pc : Pc ι} {pool after : FastBufferPool}
    (works : Works p before pool pc after) :
    after.stats = pool.stats ∧ lookingAt pc ≤ lookingAt before ∧
      acquiringAt pc = acquiringAt before := by
  cases works <;> exact ⟨rfl, by simp [lookingAt], rfl⟩

theorem quiet_counts {before pc : Pc ι} (quiet : Quiet p before pc) :
    lookingAt pc = lookingAt before ∧ acquiringAt pc = acquiringAt before := by
  cases quiet <;> exact ⟨rfl, rfl⟩

variable [DecidableEq θ]

theorem looking_go (mostly : Mostly .idle x.threads) {t : θ} {before : Pc ι}
    (stands : x.threads t = before) (pc : Pc ι) (after : FastBufferPool) :
    looking (x.go t pc after) + lookingAt before = looking x + lookingAt pc :=
  calls_go mostly rfl stands pc after

theorem acquiring_go (mostly : Mostly .idle x.threads) {t : θ} {before : Pc ι}
    (stands : x.threads t = before) (pc : Pc ι) (after : FastBufferPool) :
    acquiring (x.go t pc after) + acquiringAt before = acquiring x + acquiringAt pc :=
  calls_go mostly rfl stands pc after

theorem looking_stay (mostly : Mostly .idle x.threads) {t : θ} {before : Pc ι}
    (stands : x.threads t = before) (pc : Pc ι) :
    looking (x.stay t pc) + lookingAt before = looking x + lookingAt pc :=
  calls_stay mostly rfl stands pc

theorem acquiring_stay (mostly : Mostly .idle x.threads) {t : θ} {before : Pc ι}
    (stands : x.threads t = before) (pc : Pc ι) :
    acquiring (x.stay t pc) + acquiringAt before = acquiring x + acquiringAt pc :=
  calls_stay mostly rfl stands pc

/-- Whatever a step does to a pool that is there, it counts one thing or nothing. -/
theorem counts_step (tracked : x.Tracked) (step : LaneStep p x action got lost y)
    {pool after : FastBufferPool} (here : x.pool = some pool) (there : y.pool = some after) :
    Counts pool.stats (looking x) (x.live + acquiring x) got lost
      after.stats (looking y) (y.live + acquiring y) := by
  cases step with
  | elsewhere =>
    cases here.symm.trans there
    exact .nothing le_rfl rfl
  | new absent => exact absurd (absent.symm.trans here) (by simp)
  | works stands found works =>
    rename_i t before pc other result
    cases here.symm.trans found
    cases there
    have looks := looking_go tracked.mostly stands pc after
    have calls := acquiring_go tracked.mostly stands pc after
    obtain ⟨stats, fall, same⟩ := works_counts works
    rw [stats]
    exact .nothing (by omega) (by simp only [Lane.go] at calls ⊢; omega)
  | quiet stands quiet starts =>
    rename_i t before pc
    cases here.symm.trans there
    have looks := looking_stay tracked.mostly stands pc
    have calls := acquiring_stay tracked.mostly stands pc
    obtain ⟨look, call⟩ := quiet_counts quiet
    exact .nothing (by omega) (by simp only [Lane.stay] at calls ⊢; omega)
  | acquire idle found =>
    rename_i t other
    cases here.symm.trans found
    cases there
    have looks : looking (x.go t (.acquireCache p) pool.countAcquired) = looking x + 1 :=
      looking_go tracked.mostly idle _ _
    have calls : acquiring (x.go t (.acquireCache p) pool.countAcquired) = acquiring x + 1 :=
      acquiring_go tracked.mostly idle _ _
    rw [looks, calls]
    exact .acquired
  | hit pc found =>
    rename_i t other item
    cases here.symm.trans found
    cases there
    have looks : looking (x.go t (.acquireDone p item) pool.countHit) + 1 = looking x :=
      looking_go tracked.mostly pc _ _
    have calls : acquiring (x.go t (.acquireDone p item) pool.countHit) = acquiring x :=
      Nat.add_right_cancel (acquiring_go tracked.mostly pc _ _)
    rw [calls]
    exact .hit looks
  | allocated pc found =>
    rename_i t other item
    cases here.symm.trans found
    cases there
    have looks : looking (x.go t (.acquireDone p item) pool.countAllocated) + 1 = looking x :=
      looking_go tracked.mostly pc _ _
    have calls : acquiring (x.go t (.acquireDone p item) pool.countAllocated) = acquiring x :=
      Nat.add_right_cancel (acquiring_go tracked.mostly pc _ _)
    rw [calls]
    exact .allocated looks
  | handed pc =>
    rename_i t item
    cases here.symm.trans there
    have looks : looking (x.stay t .idle) = looking x := looking_stay tracked.mostly pc .idle
    have calls : acquiring (x.stay t .idle) + 1 = acquiring x :=
      acquiring_stay tracked.mostly pc .idle
    exact .nothing looks.le (show x.live + 1 + acquiring (x.stay t .idle) + 0 = _ by omega)
  | drop idle found live =>
    rename_i t i n other item
    cases here.symm.trans found
    cases there
    have looks : looking (x.go t (.dropStore p item) pool.countReturned) = looking x :=
      looking_go tracked.mostly idle _ _
    have calls : acquiring (x.go t (.dropStore p item) pool.countReturned) = acquiring x :=
      acquiring_go tracked.mostly idle _ _
    change Counts _ _ _ 0 0 _ (looking (x.go t (.dropStore p item) pool.countReturned))
      (n + acquiring (x.go t (.dropStore p item) pool.countReturned))
    rw [looks, calls]
    exact .returned (by omega)
  | lose live =>
    rename_i n
    cases here.symm.trans there
    exact .nothing le_rfl (show n + acquiring x + 1 = _ by omega)

theorem counts_unmade (tracked : x.Tracked) (step : LaneStep p x action got lost y)
    (absent : x.pool = none) : (got = 0 ∧ lost = 0) ∧ ∀ after, y.pool = some after →
      after.stats = ⟨0, 0, 0, 0⟩ ∧ looking y = 0 ∧ y.live + acquiring y = 0 := by
  obtain ⟨idle, unheld⟩ := tracked.asleep absent
  cases step with
  | elsewhere | quiet | handed =>
    exact ⟨⟨rfl, rfl⟩, fun after there => absurd (absent.symm.trans there) (by simp)⟩
  | new missing length =>
    refine ⟨⟨rfl, rfl⟩, fun after there => ?_⟩
    cases there
    have looks : looking x = 0 := tally_zero fun t => congrArg lookingAt (idle t)
    have calls : acquiring x = 0 := tally_zero fun t => congrArg acquiringAt (idle t)
    exact ⟨rfl, looks, show x.live + acquiring x = 0 by omega⟩
  | works stands here | acquire stands here | hit stands here | allocated stands here
  | drop stands here => exact absurd (absent.symm.trans here) (by simp)
  | lose live => exact absurd (unheld.symm.trans live) (by omega)

end

end Secbuf.FastCounts
