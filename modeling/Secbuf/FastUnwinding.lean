import Secbuf.FastCounts
import Secbuf.FastPanics

/-! What a panic leaves of one lock-free pool among many. A call of `acquire` that panics has counted
itself, and the allocation too where that is what fails; the buffer never comes. -/

namespace Secbuf.FastPool
open Calls Storage BufferCore Custody Tally Unwinding FastCounts

section
variable {ι θ : Type} [DecidableEq ι]

def uncached (p : ι) (s : World ι θ) : Request (Action ι θ) ι → Nat
  | .act (.acquire t q) => if q = p ∧ s.tornDown t = true then 1 else 0
  | _ => 0

def unmade (p : ι) (s : World ι θ) : Request (Action ι θ) ι → Nat
  | .act (.advance t) =>
    if s.threads t = .acquireEmpty p ∧ (s.pools p).any fun pool => BUF_MAX_SIZE < pool.config.bufferSize
    then 1 else 0
  | _ => 0

variable [DecidableEq θ]

/-- A panic as one pool sees it; the numbers count the calls of `acquire` that begin, and those that
it ends on a destroyed cache and at a buffer that is too large. -/
inductive LanePanic (p : ι) (x : Lane ι θ) : Nat → Nat → Nat → Lane ι θ → Prop
  | nothing : LanePanic p x 0 0 0 x
  | uncached {pool : FastBufferPool} (here : x.pool = some pool) :
      LanePanic p x 1 1 0 { x with pool := some pool.countAcquired }
  | unmade {t : θ} {pool : FastBufferPool} (pc : x.threads t = .acquireEmpty p)
      (here : x.pool = some pool) : LanePanic p x 0 0 1 (x.go t .idle pool.countAllocated)
  | warm {t : θ} {left : Nat} (pc : x.threads t = .warm p left) :
      LanePanic p x 0 0 0 (x.stay t .idle)

variable {s u : World ι θ} {p : ι} {action : Action ι θ}

/-- A thread is stopped where its pool has not been made, which never comes up, or by a buffer that
is too large. -/
theorem advance_stuck {t : θ} {q : ι} (stuck : advance s t = none) (on : (s.threads t).pool? = some q) :
    s.pools q = none ∨ ∃ pool, s.pools q = some pool ∧ BUF_MAX_SIZE < pool.config.bufferSize ∧
      (s.threads t = .acquireEmpty q ∨ ∃ left, s.threads t = .warm q left) := by
  cases here : s.pools q with
  | none => exact Or.inl rfl
  | some pool =>
    have there : Configured q pool.config s := ⟨pool, here, rfl⟩
    have total := mt (advance_total there rfl on)
    rw [stuck] at total
    obtain ⟨makes, large⟩ := Classical.not_imp.mp (total nofun)
    refine Or.inr ⟨pool, rfl, not_le.mp large, ?_⟩
    cases pc : s.threads t with
    | acquireEmpty r =>
      rw [pc] at on
      cases on
      exact Or.inl rfl
    | warm r left =>
      rw [pc] at on
      cases on
      exact Or.inr ⟨left, rfl⟩
    | _ =>
      rw [pc] at makes
      cases makes

theorem lane_other {t : θ} {q : ι} (on : (s.threads t).pool? = some q) (different : q ≠ p) :
    (unwound s (.advance t)).lane p = s.lane p := by
  have still : (s.setPc t .idle).lane p = s.lane p := by
    rw [lane_setPc]
    exact stay_other different rfl (Or.inr on) (Or.inl rfl)
  simp only [unwound]
  split
  · rename_i r pc
    rw [pc] at on
    obtain rfl : r = q := Option.some.inj on
    split
    · rename_i pool here
      rw [lane_setPc, lane_setPool, if_neg different, ← lane_setPc]
      exact still
    · exact still
  · exact still

theorem acquire_panic {t : θ} {q : ι} (can : callable s (.acquire t q) = true)
    (stuck : next s (.acquire t q) = none) :
    LanePanic p (s.lane p) (gets p (.acquire t q)) (uncached p s (.act (.acquire t q)))
      (unmade p s (.act (.acquire t q))) ((unwound s (.acquire t q)).lane p) := by
  simp only [callable, Bool.and_eq_true, decide_eq_true_eq] at can
  obtain ⟨pool, here⟩ := Option.isSome_iff_exists.mp can.2
  have gone : s.tornDown t = true := by
    by_contra alive
    simp [next, can.1, alive, here] at stuck
  simp only [gets, uncached, unmade, gone, and_true, unwound, here, lane_setPool]
  by_cases same : q = p
  · subst same
    simp only [if_true]
    exact .uncached here
  · simp only [if_neg same]
    exact .nothing

theorem advance_panic {t : θ} (tracked : (s.lane p).Tracked) (busy : s.threads t ≠ .idle)
    (stuck : next s (.advance t) = none) :
    LanePanic p (s.lane p) 0 0 (unmade p s (.act (.advance t))) ((unwound s (.advance t)).lane p) := by
  obtain ⟨q, on⟩ : ∃ q, (s.threads t).pool? = some q := by
    cases pc : s.threads t with
    | idle => exact absurd pc busy
    | _ => exact ⟨_, rfl⟩
  by_cases same : q = p
  · subst same
    have shown : (s.lane q).threads t = s.threads t := if_pos on
    rcases advance_stuck stuck on with absent | ⟨pool, here, large, pc | ⟨left, pc⟩⟩
    · exact absurd (shown.symm.trans ((tracked.asleep absent).1 t)) busy
    · have panicked : unmade q s (.act (.advance t)) = 1 := by simp [unmade, pc, here, large]
      have after : (unwound s (.advance t)).lane q = (s.lane q).go t .idle pool.countAllocated := by
        simp only [unwound, pc, here]
        rw [lane_setPc, lane_setPool, if_pos rfl]
        rfl
      rw [panicked, after]
      exact .unmade (shown.trans pc) here
    · have after : (unwound s (.advance t)).lane q = (s.lane q).stay t .idle := by
        simp only [unwound, pc]
        exact lane_setPc s q t .idle
      have none : unmade q s (.act (.advance t)) = 0 := by simp [unmade, pc]
      rw [none, after]
      exact .warm (shown.trans pc)
  · have none : unmade p s (.act (.advance t)) = 0 := by
      apply if_neg
      rintro ⟨pc, -⟩
      rw [pc] at on
      exact same (Option.some.inj on).symm
    rw [none, lane_other on same]
    exact .nothing

theorem lane_panic (tracked : (s.lane p).Tracked) (can : callable s action = true)
    (stuck : next s action = none) :
    LanePanic p (s.lane p) (gets p action) (uncached p s (.act action)) (unmade p s (.act action))
      ((unwound s action).lane p) := by
  cases action with
  | acquire t q => exact acquire_panic can stuck
  | advance t => exact advance_panic tracked (by simpa [callable] using can) stuck
  | _ => exact .nothing

/-! One pool after one call, however it ends. -/

/-- A call as one pool sees it. The numbers count the calls of `acquire` that begin, the handles
lost, and the calls of `acquire` that panic on a destroyed cache and at a buffer too large. -/
inductive LaneCall (p : ι) (s : World ι θ) (request : Request (Action ι θ) ι) (u : World ι θ) : Prop
  | returned {action : Action ι θ} (act : request = .act action) (taken : Taken s action u)
      (fine : uncached p s request = 0 ∧ unmade p s request = 0)
  | panicked {action : Action ι θ} (act : request = .act action) (stuck : next s action = none)
      (kept : lost p s action = 0)
      (panic : LanePanic p (s.lane p) (gets p action) (uncached p s request) (unmade p s request)
        (u.lane p))
  | looked (same : u = s) (none : ∀ weight, request.weigh weight = 0)
      (fine : uncached p s request = 0 ∧ unmade p s request = 0)

theorem fine_of_taken (taken : Taken s action u) :
    uncached p s (.act action) = 0 ∧ unmade p s (.act action) = 0 := by
  cases step_of_taken taken with
  | acquire idle alive here => simp [uncached, unmade, alive]
  | allocated pc here made =>
    obtain ⟨small, -⟩ := Buffer.new_cases made
    refine ⟨rfl, if_neg ?_⟩
    rintro ⟨stands, large⟩
    obtain rfl : _ = p := by simpa [pc] using stands
    simp only [here, Option.any_some, decide_eq_true_eq] at large
    omega
  | hit pc | acquirePop pc | acquireMiss pc | acquireCounted pc | handed pc | stored pc
  | dropAdmitted pc | dropRefused pc | dropPushed pc | dropCounted pc | warmEnd pc | warmPushed pc
  | warmCounted pc | clearPop pc | clearEnd pc | clearCounted pc | flushEnd pc | flushAdmitted pc
  | flushRefused pc | flushPushed pc | flushCounted pc => simp [uncached, unmade, pc]
  | _ => exact ⟨rfl, rfl⟩

theorem kept_of_stuck (can : callable s action = true) (stuck : next s action = none) :
    lost p s action = 0 := by
  cases action with
  | dropNow i | leak i =>
    obtain ⟨handle, found⟩ := Option.isSome_iff_exists.mp can
    simp [next, found] at stuck
  | _ => rfl

theorem lane_call {request : Request (Action ι θ) ι} (tracked : (s.lane p).Tracked)
    (went : goOn calls s request = some u) : LaneCall p s request u := by
  obtain ⟨ending, ended, rfl⟩ := ending_of_goOn went
  cases ends_of_calls ended with
  | returned taken => exact .returned rfl taken (fine_of_taken taken)
  | stopped can stuck => exact .panicked rfl stuck (kept_of_stuck can stuck) (lane_panic tracked can stuck)
  | looked looks => cases looks <;> exact .looked rfl (fun _ => rfl) ⟨rfl, rfl⟩

omit [DecidableEq ι] in
theorem tracked_panic {x y : Lane ι θ} {got gone large : Nat} (tracked : x.Tracked)
    (panic : LanePanic p x got gone large y) : y.Tracked := by
  cases panic with
  | nothing => exact tracked
  | uncached here =>
    rename_i pool
    refine ⟨?_, tracked.mostly, ?_⟩
    · intro absent
      cases absent
    · intro after there
      cases there
      exact tracked.congruent pool here
  | unmade pc here =>
    rename_i t pool
    refine ⟨?_, tracked.mostly.update _ _, ?_⟩
    · intro absent
      cases absent
    · intro after there
      cases there
      have same : (x.go t .idle pool.countAllocated).queue pool.countAllocated = x.queue pool :=
        (queue_update x t .idle pool _).trans (queue_still pc rfl rfl)
      exact same ▸ tracked.congruent pool here
  | warm pc =>
    rename_i t left
    refine ⟨?_, tracked.mostly.update _ _, ?_⟩
    · intro absent
      exact absurd (((tracked.asleep absent).1 t).symm.trans pc) nofun
    · intro pool here
      have same : (x.stay t .idle).queue pool = x.queue pool :=
        (queue_update x t .idle pool pool).trans (queue_still pc rfl rfl)
      exact same ▸ tracked.congruent pool here

theorem tracked_call {request : Request (Action ι θ) ι} (tracked : (s.lane p).Tracked)
    (call : LaneCall p s request u) : (u.lane p).Tracked := by
  cases call with
  | returned act taken fine => exact tracked_step tracked (lane_step (step_of_taken taken) p)
  | panicked act stuck kept panic => exact tracked_panic tracked panic
  | looked same none fine => exact same ▸ tracked

end

end Secbuf.FastPool
