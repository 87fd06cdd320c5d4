import Secbuf.Gauge

/-! The hit rates of the lock-free pool. Each call of `acquire` is served once, by the thread's cache,
by the queue or by a new buffer, or it panics; the counters tell the cases apart but for one: an
`acquire` that panics without a cache looks like one that the queue has served. -/

namespace Secbuf.HitRates
open Calls Storage BufferCore Custody Tally Unwinding FastPool FastCounts Statistics

/-- Where an `acquire` finds its buffer. -/
inductive Tier where
  | cache
  | queue
  | fresh
  deriving DecidableEq, Repr

section
variable {ι θ : Type}

/-- The pool on which the step finds a buffer for an `acquire`, and where. -/
def serves (s : World ι θ) : Action ι θ → Option (ι × Tier)
  | .advance t =>
    match s.threads t with
    | .acquireCache p =>
      match (s.caches t).getLast? with
      | some _ => some (p, .cache)
      | none => (s.pools p).bind fun pool =>
        if pool.globalPool.items.isEmpty then none else some (p, .queue)
    | .acquireEmpty p =>
      if (s.pools p).any fun pool => pool.config.bufferSize ≤ BUF_MAX_SIZE then some (p, .fresh)
      else none
    | _ => none
  | _ => none

def counter (field : FastPoolStatsInner → Nat) (p : ι) (pools : ι → Option FastBufferPool) : Nat :=
  (pools p).elim 0 fun pool => field pool.stats

variable {pools : ι → Option FastBufferPool} {p q : ι} {field : FastPoolStatsInner → Nat}
  {pool after : FastBufferPool} {s u : World ι θ} {action : Action ι θ}

theorem counter_some (here : pools p = some pool) : counter field p pools = field pool.stats := by
  rw [counter, here, Option.elim_some]

variable [DecidableEq ι]

def served (p : ι) (tier : Tier) (s : World ι θ) (action : Action ι θ) : Nat :=
  if serves s action = some (p, tier) then 1 else 0

theorem counter_update : counter field p (Function.update pools q (some after)) =
    if q = p then field after.stats else counter field p pools := by
  split_ifs with same
  · rw [← same, counter_some (Function.update_self ..)]
  · simp only [counter, Function.update_of_ne (Ne.symm same)]

theorem counter_same (here : pools q = some pool) (same : field after.stats = field pool.stats) :
    counter field p (Function.update pools q (some after)) = counter field p pools := by
  rw [counter_update]
  split_ifs with eq
  · rw [same, ← eq, counter_some here]
  · rfl

theorem counter_up (here : pools q = some pool)
    (up : field after.stats = usizeAdd (field pool.stats) 1) {n : Nat}
    (counts : counter field p pools = n % 2 ^ 64) :
    counter field p (Function.update pools q (some after)) = (n + if q = p then 1 else 0) % 2 ^ 64 := by
  rw [counter_update]
  split_ifs with eq
  · subst eq
    rw [counter_some here] at counts
    rw [up, counts, usizeAdd]
    omega
  · exact counts

variable [DecidableEq θ]

theorem counter_still (step : Step s action u) (none : serves s action = none)
    (field : FastPoolStatsInner → Nat)
    (reads : field = FastPoolStatsInner.cacheHits ∨ field = FastPoolStatsInner.allocated) :
    counter field p u.pools = counter field p s.pools := by
  cases step with
  | hit pc here top => simp [serves, pc, top] at none
  | acquirePop pc here empty items =>
    simp [serves, pc, empty, here, items] at none
  | allocated pc here made =>
    simp [serves, pc, here, (Buffer.new_cases made).1] at none
  | new absent made =>
    rename_i q config items
    change counter field p (Function.update s.pools q _) = _
    rw [counter_update]
    split_ifs with eq
    · rw [counter, ← eq, absent]
      rcases reads with rfl | rfl <;> rfl
    · rfl
  | acquire idle alive here | drop idle found here =>
    apply counter_same here
    rcases reads with rfl | rfl <;> rfl
  | acquireCounted pc here | dropPushed pc here | dropCounted pc here | warmPushed pc here
  | warmCounted pc here | clearPop pc here | clearCounted pc here | flushPushed pc here
  | flushCounted pc here => exact counter_same here rfl
  | _ => rfl

theorem counters_found (step : Step s action u) {tier : Tier} (found : serves s action = some (q, tier))
    {n m : Nat} (hits : counter FastPoolStatsInner.cacheHits p s.pools = n % 2 ^ 64)
    (made : counter FastPoolStatsInner.allocated p s.pools = m % 2 ^ 64) :
    counter FastPoolStatsInner.cacheHits p u.pools =
        (n + if q = p ∧ tier = .cache then 1 else 0) % 2 ^ 64 ∧
      counter FastPoolStatsInner.allocated p u.pools =
        (m + if q = p ∧ tier = .fresh then 1 else 0) % 2 ^ 64 := by
  cases step with
  | hit pc here top =>
    simp only [serves, pc, top] at found
    cases found
    simp only [reduceCtorEq, and_true, and_false, if_false, Nat.add_zero]
    exact ⟨counter_up here rfl hits, Eq.trans (counter_same here rfl) made⟩
  | acquirePop pc here empty items =>
    simp [serves, pc, empty, here, items] at found
    obtain ⟨rfl, rfl⟩ := found
    simp only [reduceCtorEq, and_false, if_false, Nat.add_zero]
    exact ⟨Eq.trans (counter_same here rfl) hits, Eq.trans (counter_same here rfl) made⟩
  | allocated pc here fresh =>
    simp [serves, pc, here, (Buffer.new_cases fresh).1] at found
    obtain ⟨rfl, rfl⟩ := found
    simp only [reduceCtorEq, and_true, and_false, if_false, Nat.add_zero]
    exact ⟨Eq.trans (counter_same here rfl) hits, counter_up here rfl made⟩
  | acquireMiss pc here empty items => simp [serves, pc, empty, here, items] at found
  | acquireCounted pc | handed pc | stored pc | dropAdmitted pc | dropRefused pc | dropPushed pc
  | dropCounted pc | warmEnd pc | warmPushed pc | warmCounted pc | clearPop pc | clearEnd pc
  | clearCounted pc | flushEnd pc | flushAdmitted pc | flushRefused pc | flushPushed pc
  | flushCounted pc => simp [serves, pc] at found
  | _ => cases found

theorem counters_step (step : Step s action u) {n m : Nat}
    (hits : counter FastPoolStatsInner.cacheHits p s.pools = n % 2 ^ 64)
    (made : counter FastPoolStatsInner.allocated p s.pools = m % 2 ^ 64) :
    counter FastPoolStatsInner.cacheHits p u.pools = (n + served p .cache s action) % 2 ^ 64 ∧
      counter FastPoolStatsInner.allocated p u.pools = (m + served p .fresh s action) % 2 ^ 64 := by
  cases found : serves s action with
  | none =>
    rw [counter_still step found _ (Or.inl rfl), counter_still step found _ (Or.inr rfl)]
    simpa [served, found] using And.intro hits made
  | some place =>
    obtain ⟨q, tier⟩ := place
    simpa [served, found] using counters_found step found hits made

def servedAny (p : ι) (s : World ι θ) (action : Action ι θ) : Nat :=
  served p .cache s action + served p .queue s action + served p .fresh s action

omit [DecidableEq θ] in
theorem servedAny_eq (p : ι) (s : World ι θ) (action : Action ι θ) : servedAny p s action =
    if (serves s action).any fun place => place.1 = p then 1 else 0 := by
  unfold servedAny served
  cases serves s action with
  | none => simp
  | some place =>
    obtain ⟨q, tier⟩ := place
    cases tier <;> simp

omit [DecidableEq θ] in
theorem lookingAt_on (p : ι) (pc : Pc ι) :
    lookingAt (pc.on p) = if pc.pool? = some p then lookingAt pc else 0 := by
  unfold Pc.on
  split_ifs
  · rfl
  · rfl

theorem looking_moves (mostly : Mostly .idle (s.lane p).threads) {t : θ} {before pc : Pc ι}
    (stands : s.threads t = before) (moves : u.threads = Function.update s.threads t pc) :
    looking (u.lane p) + (if before.pool? = some p then lookingAt before else 0) =
      looking (s.lane p) + if pc.pool? = some p then lookingAt pc else 0 := by
  have lane : (u.lane p).threads = ((s.lane p).stay t (pc.on p)).threads := by
    have same := congrArg Lane.threads (lane_setPc s p t pc)
    rw [← same]
    simp only [World.lane, World.setPc, moves]
  have moved := looking_stay mostly (congrArg (Pc.on p) stands) (pc.on p)
  rw [← lookingAt_on, ← lookingAt_on, looking, lane]
  exact moved

/-- Every call of `acquire` is looking for its buffer, or has been served once. -/
theorem looking_step (mostly : Mostly .idle (s.lane p).threads) (step : Step s action u) :
    looking (u.lane p) + servedAny p s action = looking (s.lane p) + gets p action := by
  rw [servedAny_eq]
  have moves {t : θ} {before pc : Pc ι} (stands : s.threads t = before)
      (moves : u.threads = Function.update s.threads t pc) := looking_moves mostly stands moves
  cases step with
  | new | dropNow | leak | exit | use | replace => rfl
  | flushRefused pc here noRoom top => simp [serves, pc]; rfl
  | acquire idle alive here => simpa [serves, gets, Pc.pool?, lookingAt] using moves idle rfl
  | drop idle found here | warm idle here | clear idle here | flush idle alive here =>
    simpa [serves, gets, Pc.pool?, lookingAt] using moves idle rfl
  | hit pc here top => simpa [serves, gets, pc, top, Pc.pool?, lookingAt] using moves pc rfl
  | acquirePop pc here empty items | acquireMiss pc here empty items =>
    simpa [serves, gets, pc, here, empty, items, Pc.pool?, lookingAt] using moves pc rfl
  | allocated pc here made =>
    simpa [serves, gets, pc, here, (Buffer.new_cases made).1, Pc.pool?, lookingAt] using moves pc rfl
  | acquireCounted pc | handed pc | stored pc | dropAdmitted pc | dropRefused pc
  | dropPushed pc | dropCounted pc | warmEnd pc | warmPushed pc | warmCounted pc | clearPop pc
  | clearEnd pc | clearCounted pc | flushEnd pc | flushAdmitted pc | flushPushed pc | flushCounted pc =>
    simpa [serves, gets, pc, Pc.pool?, lookingAt] using moves pc rfl

/-! The calls that panic. -/

theorem served_stuck (tracked : (s.lane p).Tracked) (stuck : next s action = none) (tier : Tier) :
    served p tier s action = 0 := by
  apply if_neg
  intro found
  cases action with
  | advance t =>
    have idle : s.pools p = none → (s.threads t).on p = .idle := fun absent =>
      (tracked.asleep absent).1 t
    cases pc : s.threads t with
    | acquireCache q =>
      have same : q = p := by
        simp only [serves, pc] at found
        split at found
        · cases found
          rfl
        · obtain ⟨pool, -, there⟩ := Option.bind_eq_some_iff.mp found
          split_ifs at there
          cases there
          rfl
      subst same
      have on : (s.threads t).pool? = some q := by rw [pc]; rfl
      rcases advance_stuck stuck on with absent | ⟨pool, here, large, stands | ⟨left, stands⟩⟩
      · have rest := idle absent
        rw [Pc.on, if_pos on, pc] at rest
        cases rest
      · cases pc.symm.trans stands
      · cases pc.symm.trans stands
    | acquireEmpty q =>
      simp only [serves, pc] at found
      split_ifs at found with small
      obtain rfl : q = p := congrArg Prod.fst (Option.some.inj found)
      have on : (s.threads t).pool? = some q := by rw [pc]; rfl
      rcases advance_stuck stuck on with absent | ⟨pool, here, large, -⟩
      · simp [absent] at small
      · simp only [here, Option.any_some, decide_eq_true_eq] at small
        omega
    | _ =>
      simp only [serves, pc] at found
      cases found
  | _ => cases found

omit [DecidableEq ι] in
theorem counters_panic {x y : Lane ι θ} {begun gone large n m : Nat}
    (panic : LanePanic p x begun gone large y)
    (hits : (x.pool.elim 0 fun pool => pool.stats.cacheHits) = n % 2 ^ 64)
    (made : (x.pool.elim 0 fun pool => pool.stats.allocated) = m % 2 ^ 64) :
    (y.pool.elim 0 fun pool => pool.stats.cacheHits) = n % 2 ^ 64 ∧
      (y.pool.elim 0 fun pool => pool.stats.allocated) = (m + large) % 2 ^ 64 := by
  cases panic with
  | nothing => exact ⟨hits, made⟩
  | uncached here =>
    rw [here] at hits made
    exact ⟨hits, made⟩
  | unmade pc here =>
    rw [here] at hits made
    refine ⟨hits, ?_⟩
    simp only [Option.elim_some] at made
    simp only [Lane.go, Option.elim_some, FastBufferPool.countAllocated, made, usizeAdd]
    omega
  | warm pc => exact ⟨hits, made⟩

omit [DecidableEq ι] in
theorem looking_panic {x y : Lane ι θ} {begun gone large : Nat} (mostly : Mostly .idle x.threads)
    (panic : LanePanic p x begun gone large y) : looking y + (gone + large) = looking x + begun := by
  cases panic with
  | nothing => rfl
  | uncached here => rfl
  | unmade pc here =>
    rename_i t pool
    have moved := looking_go mostly pc .idle pool.countAllocated
    simp only [lookingAt, Nat.add_zero] at moved
    omega
  | warm pc =>
    rename_i t left
    exact looking_stay mostly pc .idle

/-! Whole runs. -/

variable {requests : List (Request (Action ι θ) ι)}

def allocates (p : ι) (s : World ι θ) (request : Request (Action ι θ) ι) : Nat :=
  request.weigh (served p .fresh s) + unmade p s request

theorem counters_run (script : exec (goOn calls) World.empty requests = some s) (p : ι) :
    counter FastPoolStatsInner.cacheHits p s.pools =
        total (goOn calls) (fun s request => request.weigh (served p .cache s)) World.empty requests %
          2 ^ 64 ∧
      counter FastPoolStatsInner.allocated p s.pools =
        total (goOn calls) (allocates p) World.empty requests % 2 ^ 64 := by
  have one (n m : Nat) (s : World ι θ) (request : Request (Action ι θ) ι) (u : World ι θ)
      (before : (s.lane p).Tracked ∧ counter FastPoolStatsInner.cacheHits p s.pools = n % 2 ^ 64 ∧
        counter FastPoolStatsInner.allocated p s.pools = m % 2 ^ 64)
      (went : goOn calls s request = some u) :
      (u.lane p).Tracked ∧ counter FastPoolStatsInner.cacheHits p u.pools =
          (n + request.weigh (served p .cache s)) % 2 ^ 64 ∧
        counter FastPoolStatsInner.allocated p u.pools = (m + allocates p s request) % 2 ^ 64 := by
    obtain ⟨tracked, hits, made⟩ := before
    have call := lane_call tracked went
    refine ⟨tracked_call tracked call, ?_⟩
    cases call with
    | returned act taken fine =>
      subst act
      rw [allocates, fine.2]
      exact counters_step (step_of_taken taken) hits made
    | panicked act stuck kept panic =>
      subst act
      rw [allocates, Request.weigh, Request.weigh, served_stuck tracked stuck,
        served_stuck tracked stuck, Nat.zero_add]
      exact counters_panic panic hits made
    | looked same none fine =>
      rw [same, allocates, none, none, fine.2]
      exact ⟨hits, made⟩
  have start : ((World.empty : World ι θ).lane p).Tracked ∧
      counter FastPoolStatsInner.cacheHits p (World.empty : World ι θ).pools = 0 % 2 ^ 64 ∧
      counter FastPoolStatsInner.allocated p (World.empty : World ι θ).pools = 0 % 2 ^ 64 :=
    ⟨tracked_empty p, rfl, rfl⟩
  have run := exec_adds one start script
  rw [Nat.zero_add, Nat.zero_add] at run
  exact run.2

def settles (p : ι) (s : World ι θ) (request : Request (Action ι θ) ι) : Nat :=
  request.weigh (servedAny p s) + (uncached p s request + unmade p s request)

/-- Each `acquire` so far has been served by one tier, has panicked, or is still looking. -/
theorem searches_run (script : exec (goOn calls) World.empty requests = some s) (p : ι) :
    total (goOn calls) (fun _ request => request.weigh (gets p)) World.empty requests =
      total (goOn calls) (settles p) World.empty requests + looking (s.lane p) := by
  have one (n m : Nat) (s : World ι θ) (request : Request (Action ι θ) ι) (u : World ι θ)
      (before : (s.lane p).Tracked ∧ n = m + looking (s.lane p))
      (went : goOn calls s request = some u) :
      (u.lane p).Tracked ∧
        n + request.weigh (gets p) = m + settles p s request + looking (u.lane p) := by
    obtain ⟨tracked, balance⟩ := before
    have call := lane_call tracked went
    refine ⟨tracked_call tracked call, ?_⟩
    cases call with
    | returned act taken fine =>
      subst act
      have searched := looking_step tracked.mostly (step_of_taken taken)
      simp only [settles, Request.weigh, fine.1, fine.2]
      omega
    | panicked act stuck kept panic =>
      subst act
      have searched := looking_panic tracked.mostly panic
      simp only [settles, Request.weigh, servedAny, served_stuck tracked stuck]
      omega
    | looked same none fine =>
      rw [same, settles, none, none, fine.1, fine.2]
      omega
  have start : ((World.empty : World ι θ).lane p).Tracked ∧
      0 = 0 + looking ((World.empty : World ι θ).lane p) :=
    ⟨tracked_empty p, ((Nat.zero_add _).trans (tally_zero fun _ => rfl)).symm⟩
  have run := exec_adds one start script
  rw [Nat.zero_add, Nat.zero_add] at run
  exact run.2

theorem settles_total (p : ι) (s : World ι θ) (requests : List (Request (Action ι θ) ι)) :
    total (goOn calls) (settles p) s requests =
      total (goOn calls) (fun s request => request.weigh (served p .cache s)) s requests +
        total (goOn calls) (fun s request => request.weigh (served p .queue s)) s requests +
        total (goOn calls) (fun s request => request.weigh (served p .fresh s)) s requests +
        (total (goOn calls) (uncached p) s requests + total (goOn calls) (unmade p) s requests) := by
  have tiers (s : World ι θ) (request : Request (Action ι θ) ι) : request.weigh (servedAny p s) =
      request.weigh (served p .cache s) + request.weigh (served p .queue s) +
        request.weigh (served p .fresh s) := by
    cases request <;> rfl
  unfold settles
  simp only [tiers]
  rw [total_add, total_add, total_add, total_add]

theorem allocates_total (p : ι) (s : World ι θ) (requests : List (Request (Action ι θ) ι)) :
    total (goOn calls) (allocates p) s requests =
      total (goOn calls) (fun s request => request.weigh (served p .fresh s)) s requests +
        total (goOn calls) (unmade p) s requests := by
  unfold allocates
  exact total_add ..

/-- With no call on the pool under way, and in every run of fewer than 2^64 calls of `acquire` on it:
each of them was served once or panicked, on a destroyed cache or at a buffer too large;
`cache_hit_rate()` is the part that a thread's cache served, and `pool_hit_rate()` the part that a
cache or the queue served or that panicked on a destroyed cache. -/
theorem fast_rates_exact (f64 : Rounding) (cached shared made gone large got : Nat)
    (script : exec (goOn calls) World.empty requests = some s) (here : s.pools p = some pool)
    (quiet : ∀ t, (s.threads t).pool? ≠ some p)
    (hits : cached =
      total (goOn calls) (fun s request => request.weigh (served p .cache s)) World.empty requests)
    (pops : shared =
      total (goOn calls) (fun s request => request.weigh (served p .queue s)) World.empty requests)
    (news : made =
      total (goOn calls) (fun s request => request.weigh (served p .fresh s)) World.empty requests)
    (lost : gone = total (goOn calls) (uncached p) World.empty requests)
    (failed : large = total (goOn calls) (unmade p) World.empty requests)
    (all : got = total (goOn calls) (fun _ request => request.weigh (gets p)) World.empty requests)
    (small : got < 2 ^ 64) :
    got = cached + shared + made + gone + large ∧
      (fastStats pool).cacheHitRate f64 = percent f64 cached got ∧
      (fastStats pool).poolHitRate f64 = percent f64 (cached + shared + gone) got := by
  have settled : looking (s.lane p) = 0 :=
    tally_zero fun t => congrArg lookingAt (if_neg (quiet t) : (s.threads t).on p = .idle)
  have sum : got = cached + shared + made + gone + large := by
    rw [all, searches_run script p, settled, settles_total, ← hits, ← pops, ← news, ← lost, ← failed]
    omega
  obtain ⟨cacheHits, allocated⟩ := counters_run script p
  rw [counter_some here, ← hits, Nat.mod_eq_of_lt (by omega)] at cacheHits
  rw [counter_some here, allocates_total, ← news, ← failed, Nat.mod_eq_of_lt (by omega)] at allocated
  have acquired := ((Gauge.laneAccount_run script).2.made pool here).acquired
  rw [← all, Nat.mod_eq_of_lt small] at acquired
  have reused : got - (made + large) = cached + shared + gone := by omega
  refine ⟨sum, ?_, ?_⟩
  · simp only [FastPoolStats.cacheHitRate, fastStats, cacheHits, acquired]
  · simp only [FastPoolStats.poolHitRate, fastStats, acquired, allocated, reused]

def askAgain : List (FastPool.Action Unit Unit) :=
  [.new () ⟨8, 4, 1⟩, .acquire () (), .advance (), .advance (), .advance (), .drop () 0, .advance (),
    .acquire () (), .advance (), .advance (), .exit (), .acquire () ()]

theorem fast_rates_exact_three :
    ∃ (s : World Unit Unit) (pool : FastBufferPool),
      exec (goOn calls) World.empty (askAgain.map .act) = some s ∧ s.pools () = some pool ∧
      ∀ f64, (fastStats pool).cacheHitRate f64 = percent f64 1 3 ∧
        (fastStats pool).poolHitRate f64 = percent f64 3 3 := by
  obtain ⟨s, pool, script, here, idle⟩ : ∃ (s : World Unit Unit) (pool : FastBufferPool),
      exec (goOn calls) World.empty (askAgain.map .act) = some s ∧
      s.pools () = some pool ∧ s.threads () = .idle := ⟨_, _, rfl, rfl, rfl⟩
  have quiet : ∀ t, (s.threads t).pool? ≠ some () := fun t => by rw [idle]; decide
  refine ⟨s, pool, script, here, fun f64 => ?_⟩
  exact (fast_rates_exact f64 1 1 0 1 0 3 script here quiet rfl rfl rfl rfl rfl rfl (by decide)).2

end

end Secbuf.HitRates
