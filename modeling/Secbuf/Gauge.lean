import Secbuf.FastUnwinding
import Secbuf.StandardPanics
import Secbuf.Statistics

/-! The gauge `in_use()` is the difference of two counters: one moves when a buffer is acquired,
the other when a handle is dropped. A handle that ends in `drop_now` or `leak` does not move the
second, and neither does an `acquire` that is counted and then panics. -/

namespace Secbuf.Gauge
open Calls Storage BufferCore Custody Tally Statistics Unwinding

structure Balance (acquired returned got out lost : Nat) : Prop where
  acquired : acquired = got % 2 ^ 64
  returned : ∃ back, got = back + out + lost ∧ returned = back % 2 ^ 64

section
variable {acquired returned got out lost : Nat}

theorem Balance.zero : Balance 0 0 0 0 0 := ⟨rfl, 0, rfl, rfl⟩

theorem Balance.take (balance : Balance acquired returned got out lost) :
    Balance (usizeAdd acquired 1) returned (got + 1) (out + 1) lost := by
  obtain ⟨rfl, back, split, rfl⟩ := balance
  exact ⟨by simp only [usizeAdd]; omega, back, by omega, rfl⟩

theorem Balance.giveBack (balance : Balance acquired returned got (out + 1) lost) :
    Balance acquired (usizeAdd returned 1) got out lost := by
  obtain ⟨rfl, back, split, rfl⟩ := balance
  exact ⟨rfl, back + 1, by omega, by simp only [usizeAdd]; omega⟩

theorem Balance.lose {n : Nat} (balance : Balance acquired returned got (out + n) lost) :
    Balance acquired returned got out (lost + n) := by
  obtain ⟨rfl, back, split, rfl⟩ := balance
  exact ⟨rfl, back, by omega, rfl⟩

theorem Balance.difference (balance : Balance acquired returned got out lost)
    (small : got < 2 ^ 64) : acquired - returned = out + lost := by
  obtain ⟨rfl, back, split, rfl⟩ := balance
  rw [Nat.mod_eq_of_lt small, Nat.mod_eq_of_lt (show back < 2 ^ 64 by omega)]
  omega

end

/-! The mutex-based pool. -/

section
open StandardPool
variable {ι : Type} [DecidableEq ι] {s t : World ι} {p : ι} {got out lost : Nat}

theorem balance_change {pool after : PoolInner} {out' gets loses : Nat}
    (balance : Balance pool.totalAcquired pool.totalReturned got out lost)
    (change : Change pool out gets loses after out') :
    Balance after.totalAcquired after.totalReturned (got + gets) out' (lost + loses) := by
  cases change with
  | elsewhere | shrink | clear => exact balance
  | acquire done =>
    have counted : after.totalAcquired = usizeAdd pool.totalAcquired 1 ∧
        after.totalReturned = pool.totalReturned := by
      rcases acquire_cases done with ⟨-, rfl⟩ | ⟨-, rfl⟩ <;> exact ⟨rfl, rfl⟩
    rw [counted.1, counted.2]
    exact balance.take
  | drop buffer =>
    have counted : (pool.dropHandle buffer).totalAcquired = pool.totalAcquired ∧
        (pool.dropHandle buffer).totalReturned = usizeAdd pool.totalReturned 1 := by
      rcases dropHandle_cases pool buffer with ⟨-, result⟩ | result <;> rw [result] <;>
        exact ⟨rfl, rfl⟩
    rw [counted.1, counted.2]
    exact balance.giveBack
  | lose => exact balance.lose
  | grow done =>
    obtain ⟨buffers, -, rfl⟩ := grow_cases done
    exact balance

/-- A pool's account with its counters; before it is made there is nothing to account for. -/
def Account (p : ι) (got lost : Nat) (s : World ι) : Prop :=
  match s.pools p with
  | some pool => Balance pool.totalAcquired pool.totalReturned got (live p s) lost
  | none => got = 0 ∧ live p s = 0 ∧ lost = 0

theorem account_new {config : PoolConfig} {pool : PoolInner} (made : PoolInner.new config = .ok pool)
    (unheld : live p s = 0) : Account p 0 0 (s.setPool p pool) := by
  have here : (s.setPool p pool).pools p = some pool := by simp [World.setPool]
  have still : live p (s.setPool p pool) = 0 := unheld
  obtain ⟨buffers, -, rfl⟩ := new_cases made
  simp only [Account, here, still]
  exact .zero

theorem account_unmade {action : Action ι} (absent : s.pools p = none) (unheld : live p s = 0)
    (step : Step s action t) :
    Account p (gets p action) (StandardPool.lost p s action) t := by
  have others : ∀ {i : Nat} {handle : Handle ι}, s.held[i]? = some handle → handle.pool ≠ p := by
    intro i handle found same
    have counted := live_eraseIdx found p
    rw [unheld, if_pos same] at counted
    omega
  have different : ∀ {q : ι} {pool : PoolInner}, s.pools q = some pool → q ≠ p := by
    rintro q pool here rfl
    exact absurd (here.symm.trans absent) (by simp)
  have elsewhere : ∀ {q : ι} (pool : PoolInner), q ≠ p → (s.setPool q pool).pools p = none := by
    intro q pool other
    simpa [World.setPool, Function.update_apply, other.symm] using absent
  have erased : ∀ {i : Nat} {handle : Handle ι}, s.held[i]? = some handle →
      live p ⟨s.pools, s.held.eraseIdx i⟩ = 0 := by
    intro i handle found
    have counted := live_eraseIdx found p
    rw [unheld] at counted
    exact Nat.eq_zero_of_add_eq_zero_right counted
  cases step with
  | new missing made =>
    rename_i q config pool
    by_cases same : q = p
    · subst same
      exact account_new made unheld
    · simp only [Account, elsewhere pool same]
      exact ⟨rfl, unheld, rfl⟩
  | acquire here done =>
    rename_i q pool after buffer
    have fresh : live p ⟨s.pools, ⟨q, buffer⟩ :: s.held⟩ = 0 := by
      rw [live_cons, if_neg (different here)]
      exact unheld
    simp only [Account, elsewhere after (different here), gets, if_neg (different here)]
    exact ⟨trivial, fresh, rfl⟩
  | drop held here =>
    simp only [Account, elsewhere _ (different here)]
    exact ⟨rfl, erased held, rfl⟩
  | dropNow held | leak held =>
    rename_i i handle
    have kept : decide (handle.pool = p) = false := decide_eq_false (others held)
    simp only [Account, absent, StandardPool.lost, held, Option.any_some, kept]
    exact ⟨rfl, erased held, rfl⟩
  | grow here | shrink here | clear here =>
    simp only [Account, elsewhere _ (different here)]
    exact ⟨rfl, unheld, rfl⟩
  | use held stepped =>
    rename_i i op handle b
    simp only [Account, absent]
    exact ⟨rfl, (live_set held b p).trans unheld, rfl⟩
  | replace held =>
    rename_i i b handle
    simp only [Account, absent]
    exact ⟨rfl, (live_set held b p).trans unheld, rfl⟩

theorem account_step {action : Action ι} (account : Account p got lost s)
    (step : Step s action t) :
    Account p (got + gets p action) (lost + StandardPool.lost p s action) t := by
  cases here : s.pools p with
  | some pool =>
    simp only [Account, here] at account
    obtain ⟨after, there, change⟩ := change_of_step step here
    simp only [Account, there]
    exact balance_change account change
  | none =>
    simp only [Account, here] at account
    obtain ⟨rfl, unheld, rfl⟩ := account
    rw [Nat.zero_add, Nat.zero_add]
    exact account_unmade here unheld step

theorem locks_other {action : Action ι} {q : ι} (locked : locks s action = some q) (other : q ≠ p) :
    gets p action = 0 ∧ StandardPool.lost p s action = 0 := by
  cases action with
  | acquire r =>
    cases locked
    exact ⟨if_neg other, rfl⟩
  | drop | grow | shrink | clear => exact ⟨rfl, rfl⟩
  | new | dropNow | leak | use | replace => cases locked

theorem account_unwound (account : Account p got lost s) {action : Action ι} {q : ι}
    (locked : locks s action = some q) (other : q ≠ p) : Account p got lost (unwound s action) := by
  cases action with
  | acquire r =>
    cases locked
    simp only [unwound]
    split
    · rename_i pool here
      have still (after : PoolInner) : (s.setPool q after).pools p = s.pools p :=
        Function.update_of_ne (Ne.symm other) _ _
      simp only [Account, still] at account ⊢
      exact account
    · exact account
  | _ => exact account

theorem account_turnedAway (account : Account p got lost s) {action : Action ι} {q : ι}
    (locked : locks s action = some q) (other : q ≠ p) : Account p got lost (turnedAway s action) := by
  cases action with
  | drop i =>
    obtain ⟨handle, found, rfl⟩ := Option.map_eq_some_iff.mp locked
    have left := live_eraseIdx found p
    rw [if_neg other, Nat.add_zero] at left
    have still : live p { s with held := s.held.eraseIdx i } = live p s := left
    simp only [turnedAway, Account, still] at account ⊢
    exact account
  | _ => exact account

theorem locked_made (account : Account p got lost s) {action : Action ι}
    (locked : locks s action = some p) (can : callable s action = true) :
    ∃ config, Configured p config s := by
  cases here : s.pools p with
  | some pool => exact ⟨pool.config, pool, here, rfl⟩
  | none =>
    simp only [Account, here] at account
    cases action with
    | acquire q | grow q | shrink q | clear q =>
      cases locked
      simp [callable, here] at can
    | drop i =>
      obtain ⟨handle, found, same⟩ := Option.map_eq_some_iff.mp locked
      have counted := live_eraseIdx found p
      rw [account.2.1, if_pos same] at counted
      omega
    | new | dropNow | leak | use | replace => cases locked

theorem kept_of_stuck {action : Action ι} (stuck : next s action = none)
    (can : callable s action = true) : StandardPool.lost p s action = 0 := by
  cases action with
  | dropNow i | leak i =>
    obtain ⟨handle, found⟩ := Option.isSome_iff_exists.mp can
    simp [next, found] at stuck
  | _ => rfl

def Accounted (p : ι) (got lost : Nat) (s : Locked ι) : Prop :=
  Poisoned p s ∨ s.poisoned p = false ∧ Account p got lost s.world

theorem accounted_call {s t : Locked ι} {request : Request (Action ι) ι}
    (accounted : Accounted p got lost s) (went : goOn calls s request = some t) :
    Accounted p (got + request.weigh (gets p))
      (lost + request.weigh (StandardPool.lost p s.world)) t := by
  obtain ⟨ending, ended, rfl⟩ := ending_of_goOn went
  have ends := ends_of_calls ended
  rcases accounted with poisoned | ⟨sane, account⟩
  · exact Or.inl (poisoned.ends ends)
  · cases ends with
    | returned locked free taken => exact Or.inr ⟨sane, account_step account (step_of_taken taken)⟩
    | stopped locked free stuck can =>
      rename_i action q
      by_cases same : q = p
      · subst same
        obtain ⟨config, there⟩ := locked_made account locked can
        have on : OnPool q s (.act action) := locked
        exact Or.inl (poisoned_of_panic there on ended)
      · have none := locks_other locked same
        refine Or.inr ⟨(Function.update_of_ne (Ne.symm same) _ _).trans sane, ?_⟩
        simp only [Request.weigh, none.1, none.2, Nat.add_zero]
        exact account_unwound account locked same
    | turnedAway locked poisoned =>
      rename_i action q
      have other : q ≠ p := by
        rintro rfl
        exact Bool.false_ne_true (sane.symm.trans poisoned)
      have none := locks_other locked other
      refine Or.inr ⟨sane, ?_⟩
      simp only [Request.weigh, none.1, none.2, Nat.add_zero]
      exact account_turnedAway account locked other
    | unlocked free taken =>
      refine Or.inr ⟨?_, account_step account (step_of_taken taken)⟩
      rename_i action world
      cases action with
      | new q config =>
        by_cases same : p = q
        · subst same
          exact opened_new s.poisoned p config
        · exact (Function.update_of_ne same _ _).trans sane
      | _ => exact sane
    | failed free stuck can =>
      rename_i action
      have none : gets p action = 0 := by
        cases action with
        | acquire q => cases free
        | _ => rfl
      refine Or.inr ⟨sane, ?_⟩
      simp only [Request.weigh, none, kept_of_stuck stuck can, Nat.add_zero]
      exact account
    | looked looks => cases looks <;> exact Or.inr ⟨sane, account⟩
    | lookedPoisoned looks => cases looks <;> exact Or.inr ⟨sane, account⟩

theorem accounted_run {requests : List (Request (Action ι) ι)} {s : Locked ι}
    (script : exec (goOn calls) Locked.empty requests = some s) :
    Accounted p (total (goOn calls) (fun _ request => request.weigh (gets p)) .empty requests)
      (total (goOn calls) (fun s request => request.weigh (StandardPool.lost p s.world)) .empty requests)
      s := by
  have start : Accounted p 0 0 (Locked.empty : Locked ι) := Or.inr ⟨rfl, rfl, rfl, rfl⟩
  have run := exec_adds (fun _ _ _ _ _ accounted went => accounted_call accounted went) start script
  rwa [Nat.zero_add, Nat.zero_add] at run

end

/-! The lock-free pool. -/

section
open FastPool FastCounts
variable {ι θ : Type} [DecidableEq θ] {p : ι} {x y : Lane ι θ} {action : Action ι θ}
  {got lost gets loses : Nat}

/-- The buffers out are the handles and the ones `acquire` is about to return. -/
structure LaneAccount (got lost : Nat) (x : Lane ι θ) : Prop where
  unmade : x.pool = none → got = 0 ∧ lost = 0
  made : ∀ pool, x.pool = some pool →
    Balance pool.stats.acquired pool.stats.returned got (x.live + acquiring x) lost

theorem balance_counts {stats stats' : FastPoolStatsInner} {looking looking' out out' : Nat}
    (balance : Balance stats.acquired stats.returned got out lost)
    (counts : Counts stats looking out gets loses stats' looking' out') :
    Balance stats'.acquired stats'.returned (got + gets) out' (lost + loses) := by
  cases counts with
  | nothing fewer left =>
    rw [← left] at balance
    exact balance.lose
  | acquired => exact balance.take
  | hit | allocated => exact balance
  | returned left =>
    rw [← left] at balance
    exact balance.giveBack

theorem laneAccount_step (tracked : x.Tracked) (account : LaneAccount got lost x)
    (step : LaneStep p x action gets loses y) : LaneAccount (got + gets) (lost + loses) y := by
  cases before : x.pool with
  | some pool =>
    obtain ⟨result, found, -⟩ := queue_step step before
    refine ⟨fun absent => absurd (found.symm.trans absent) (by simp), fun after there => ?_⟩
    exact balance_counts (account.made pool before) (counts_step tracked step before there)
  | none =>
    obtain ⟨rfl, rfl⟩ := account.unmade before
    obtain ⟨⟨rfl, rfl⟩, fresh⟩ := counts_unmade tracked step before
    refine ⟨fun _ => ⟨rfl, rfl⟩, fun after there => ?_⟩
    obtain ⟨stats, -, out⟩ := fresh after there
    rw [stats, out]
    exact .zero

end

section
open FastPool FastCounts
variable {ι θ : Type} [DecidableEq ι] [DecidableEq θ] {s : World ι θ} {p : ι}

omit [DecidableEq ι] in
theorem laneAccount_panic {x y : Lane ι θ} {got lost gets gone large : Nat} (tracked : x.Tracked)
    (account : LaneAccount got lost x) (panic : LanePanic p x gets gone large y) :
    LaneAccount (got + gets) (lost + (gone + large)) y := by
  cases panic with
  | nothing => exact account
  | uncached here =>
    rename_i pool
    refine ⟨?_, ?_⟩
    · intro absent
      cases absent
    · intro after there
      cases there
      exact (account.made pool here).take.lose
  | unmade pc here =>
    rename_i t pool
    have calls : acquiring (x.go t .idle pool.countAllocated) + 1 = acquiring x :=
      acquiring_go tracked.mostly pc _ _
    have balance := account.made pool here
    rw [← calls, ← Nat.add_assoc] at balance
    refine ⟨?_, ?_⟩
    · intro absent
      cases absent
    · intro after there
      cases there
      exact balance.lose
  | warm pc =>
    rename_i t left
    have calls : acquiring (x.stay t .idle) = acquiring x := acquiring_stay tracked.mostly pc .idle
    refine ⟨account.unmade, fun pool here => ?_⟩
    rw [calls]
    exact account.made pool here

/-- The calls of `acquire` that panic once they are counted. -/
def panics (p : ι) (s : World ι θ) (request : Request (Action ι θ) ι) : Nat :=
  uncached p s request + unmade p s request

theorem laneAccount_call {u : World ι θ} {request : Request (Action ι θ) ι} {got lost : Nat}
    (tracked : (s.lane p).Tracked) (account : LaneAccount got lost (s.lane p))
    (call : LaneCall p s request u) :
    LaneAccount (got + request.weigh (gets p))
      (lost + (request.weigh (FastPool.lost p s) + panics p s request)) (u.lane p) := by
  cases call with
  | returned act taken fine =>
    subst act
    rw [panics, fine.1, fine.2]
    exact laneAccount_step tracked account (lane_step (step_of_taken taken) p)
  | panicked act stuck kept panic =>
    subst act
    simp only [Request.weigh, kept, Nat.zero_add]
    exact laneAccount_panic tracked account panic
  | looked same none fine =>
    rw [same, none, none, panics, fine.1, fine.2]
    exact account

theorem laneAccount_run {requests : List (Request (Action ι θ) ι)}
    (script : exec (goOn calls) World.empty requests = some s) :
    (s.lane p).Tracked ∧
      LaneAccount (total (goOn calls) (fun _ request => request.weigh (gets p)) World.empty requests)
        (total (goOn calls) (fun s request => request.weigh (FastPool.lost p s) + panics p s request)
          World.empty requests) (s.lane p) := by
  have start : ((World.empty : World ι θ).lane p).Tracked ∧
      LaneAccount 0 0 ((World.empty : World ι θ).lane p) :=
    ⟨tracked_empty p, fun _ => ⟨rfl, rfl⟩, fun _ there => nomatch there⟩
  have one (n m : Nat) (s : World ι θ) (request : Request (Action ι θ) ι) (u : World ι θ)
      (before : (s.lane p).Tracked ∧ LaneAccount n m (s.lane p))
      (went : goOn calls s request = some u) :
      (u.lane p).Tracked ∧ LaneAccount (n + request.weigh (gets p))
        (m + (request.weigh (FastPool.lost p s) + panics p s request)) (u.lane p) := by
    have call := lane_call before.1 went
    exact ⟨tracked_call before.1 call, laneAccount_call before.1 before.2 call⟩
  have run := exec_adds one start script
  rwa [Nat.zero_add, Nat.zero_add] at run

omit [DecidableEq θ] in
theorem acquiring_zero (done : ∀ t, (s.threads t).pool? ≠ some p) : acquiring (s.lane p) = 0 :=
  tally_zero fun t => congrArg acquiringAt (if_neg (done t) : (s.threads t).on p = .idle)

/-- `in_use()` is the number of handles that are out exactly where no handle of the pool has ended in
`drop_now` or `leak` and no `acquire` from it has been counted and then panicked: on the
mutex-based pool after every run that leaves its mutex sound, so that `stats()` comes back, and so
none of its calls has panicked; on the lock-free pool after every run. -/
theorem in_use_live_iff (p : ι) :
    (∀ (requests : List (Request (StandardPool.Action ι) ι)) (s : StandardPool.Locked ι)
      (pool : StandardPool.PoolInner),
      exec (goOn StandardPool.calls) .empty requests = some s → s.world.pools p = some pool →
      s.poisoned p = false →
      total (goOn StandardPool.calls) (fun _ request => request.weigh (StandardPool.gets p)) .empty
        requests < 2 ^ 64 →
      ((stats pool).inUse = StandardPool.live p s.world ↔
        total (goOn StandardPool.calls) (fun s request => request.weigh (StandardPool.lost p s.world))
          .empty requests = 0)) ∧
    ∀ (requests : List (Request (Action ι θ) ι)) (s : World ι θ) (pool : FastBufferPool),
      exec (goOn calls) .empty requests = some s → s.pools p = some pool →
      (∀ t, (s.threads t).pool? ≠ some p) →
      total (goOn calls) (fun _ request => request.weigh (gets p)) .empty requests < 2 ^ 64 →
      ((fastStats pool).inUse = live p s ↔
        total (goOn calls) (fun s request => request.weigh (lost p s)) .empty requests = 0 ∧
          total (goOn calls) (panics p) .empty requests = 0) := by
  constructor
  · intro requests s pool script here sane small
    rcases accounted_run (p := p) script with poisoned | ⟨-, account⟩
    · exact absurd (sane.symm.trans poisoned.poisoned) Bool.false_ne_true
    · simp only [Account, here] at account
      have difference := account.difference small
      change pool.totalAcquired - pool.totalReturned = _ ↔ _
      omega
  · intro requests s pool script here done small
    obtain ⟨-, account⟩ := laneAccount_run (p := p) script
    have difference := (account.made pool here).difference small
    have parts := total_add (goOn calls) (fun s request => request.weigh (lost p s)) (panics p)
      World.empty requests
    rw [acquiring_zero done, Nat.add_zero, parts] at difference
    change pool.stats.acquired - pool.stats.returned = live p s ↔ _
    change pool.stats.acquired - pool.stats.returned = live p s + _ at difference
    omega

def dropOne : List (FastPool.Action Unit Unit) :=
  [.new () ⟨8, 2, 0⟩, .acquire () (), .advance (), .advance (), .advance (), .acquire () (),
    .advance (), .advance (), .advance (), .drop () 0, .advance ()]

theorem in_use_live_one :
    (∃ (s : StandardPool.Locked Unit) (pool : StandardPool.PoolInner),
      exec (goOn StandardPool.calls) .empty [.act (.new () ⟨8, 2, 0⟩), .act (.acquire ()),
        .act (.acquire ()), .act (.drop 0)] = some s ∧
      s.world.pools () = some pool ∧ (stats pool).inUse = StandardPool.live () s.world) ∧
    ∃ (s : World Unit Unit) (pool : FastBufferPool),
      exec (goOn calls) .empty (dropOne.map .act) = some s ∧
      s.pools () = some pool ∧ (fastStats pool).inUse = live () s := by
  constructor
  · obtain ⟨s, pool, script, here, sane⟩ : ∃ (s : StandardPool.Locked Unit)
        (pool : StandardPool.PoolInner),
        exec (goOn StandardPool.calls) .empty [.act (.new () ⟨8, 2, 0⟩), .act (.acquire ()),
          .act (.acquire ()), .act (.drop 0)] = some s ∧
        s.world.pools () = some pool ∧ s.poisoned () = false := ⟨_, _, rfl, rfl, rfl⟩
    exact ⟨s, pool, script, here,
      ((in_use_live_iff (θ := Unit) ()).1 _ s pool script here sane (by decide)).mpr (by decide)⟩
  · obtain ⟨s, pool, script, here, idle⟩ : ∃ (s : World Unit Unit) (pool : FastBufferPool),
        exec (goOn calls) .empty (dropOne.map .act) = some s ∧
        s.pools () = some pool ∧ s.threads () = .idle := ⟨_, _, rfl, rfl, rfl⟩
    have done : ∀ t, (s.threads t).pool? ≠ some () := fun t => by rw [idle]; decide
    exact ⟨s, pool, script, here,
      ((in_use_live_iff ()).2 _ s pool script here done (by decide)).mpr (by decide)⟩

/-- A buffer taken and its handle ended by `drop_now`: no handle is out, and one is in use. On the
lock-free pool it is enough to ask for a buffer that is too large to be made. -/
theorem in_use_after_drop_now :
    (∃ (s : StandardPool.Locked Unit) (pool : StandardPool.PoolInner),
      exec (goOn StandardPool.calls) .empty [.act (.new () ⟨8, 2, 0⟩), .act (.acquire ()),
        .act (.dropNow 0)] = some s ∧
      s.world.pools () = some pool ∧ (stats pool).inUse = 1 ∧ StandardPool.live () s.world = 0 ∧
      ¬ (stats pool).inUse = StandardPool.live () s.world) ∧
    (∃ (s : World Unit Unit) (pool : FastBufferPool),
      exec (goOn calls) .empty [.act (.new () ⟨8, 2, 0⟩), .act (.acquire () ()), .act (.advance ()),
        .act (.advance ()), .act (.advance ()), .act (.dropNow 0)] = some s ∧
      s.pools () = some pool ∧ s.threads () = .idle ∧ (fastStats pool).inUse = 1 ∧ live () s = 0 ∧
      ¬ (fastStats pool).inUse = live () s) ∧
    ∃ (s : World Unit Unit) (pool : FastBufferPool),
      exec (goOn calls) .empty [.act (.new () ⟨BUF_MAX_SIZE + 1, 2, 0⟩), .act (.acquire () ()),
        .act (.advance ()), .act (.advance ())] = some s ∧
      s.pools () = some pool ∧ s.threads () = .idle ∧ (fastStats pool).inUse = 1 ∧ live () s = 0 ∧
      ¬ (fastStats pool).inUse = live () s :=
  ⟨⟨_, _, rfl, rfl, rfl, rfl, by decide⟩, ⟨_, _, rfl, rfl, rfl, rfl, rfl, by decide⟩,
    _, _, rfl, rfl, rfl, rfl, rfl, by decide⟩

end

end Secbuf.Gauge
