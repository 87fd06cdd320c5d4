import Secbuf.CounterOrder
import Secbuf.Statistics

/-! `stats()` of a lock-free pool, one load after another, while other threads go on. A call of
`acquire` is late where it is counted after the snapshot has read how many there are; the handle
it returns is late with it. -/

namespace Secbuf.Snapshot
open Calls Storage BufferCore Custody Tally FastPool Statistics FastCounts CounterOrder

inductive Reader where
  | start
  | available (available : Nat)
  | allocated (available allocated : Nat)
  | acquired (available allocated acquired : Nat)
  | returned (available allocated acquired returned : Nat)
  | done (stats : FastPoolStats)
  deriving DecidableEq

namespace Reader

/-- The next load, from the pool as it is at that moment. -/
def load (pool : FastBufferPool) : Reader → Option Reader
  | .start => some (.available pool.globalPool.len)
  | .available a => some (.allocated a pool.stats.allocated)
  | .allocated a b => some (.acquired a b pool.stats.acquired)
  | .acquired a b c => some (.returned a b c pool.stats.returned)
  | .returned a b c d => some (.done ⟨a, b, c, d, pool.stats.cacheHits, 0⟩)
  | .done _ => none

def past : Reader → Bool
  | .start | .available _ | .allocated _ _ => false
  | _ => true

end Reader

/-- The pools and the snapshot, with marks on the late calls and, in the order of the handles, on
the late handles. The marks are read by no step. -/
structure View (ι θ : Type) where
  world : World ι θ
  reader : Reader
  lateCalls : θ → Bool
  lateHandles : List Bool

inductive Move (ι θ : Type) where
  | pool (action : Action ι θ)
  | load

section
variable {ι θ : Type}

def View.start : View ι θ := ⟨.empty, .start, fun _ => false, []⟩

def View.markCalls [DecidableEq θ] (v : View ι θ) : Action ι θ → θ → Bool
  | .acquire t _ => Function.update v.lateCalls t v.reader.past
  | _ => v.lateCalls

def View.markHandles (v : View ι θ) : Action ι θ → List Bool
  | .advance t =>
    match v.world.threads t with
    | .acquireDone _ _ => v.lateCalls t :: v.lateHandles
    | _ => v.lateHandles
  | .drop _ i | .dropNow i | .leak i => v.lateHandles.eraseIdx i
  | _ => v.lateHandles

variable [DecidableEq ι] [DecidableEq θ]

def step (p : ι) (v : View ι θ) : Move ι θ → Option (View ι θ)
  | .pool action => do
    let world ← next v.world action
    some ⟨world, v.reader, v.markCalls action, v.markHandles action⟩
  | .load => do
    let pool ← v.world.pools p
    let reader ← v.reader.load pool
    some { v with reader }

def Taken (p : ι) (v : View ι θ) (move : Move ι θ) (w : View ι θ) : Prop := step p v move = some w

/-- The counts of the other threads come in time: no late call counts its cache hit before
`cache_hits` is loaded, and no late handle is counted as returned before `returned` is loaded.
And 2^64 calls of `acquire` are out of the question. -/
def InTime (p : ι) (v : View ι θ) : Move ι θ → Prop
  | .pool (.acquire _ q) => q = p → ∀ pool, v.world.pools p = some pool →
    pool.stats.acquired + 1 < 2 ^ 64
  | .pool (.advance t) =>
    match v.reader with
    | .acquired _ _ _ | .returned _ _ _ _ => v.world.threads t = .acquireCache p →
      (v.world.caches t).getLast? ≠ none → v.lateCalls t = false
    | _ => True
  | .pool (.drop _ i) =>
    match v.reader with
    | .acquired _ _ _ => ∀ handle, v.world.held[i]? = some handle → handle.pool = p →
      v.lateHandles[i]? = some false
    | _ => True
  | _ => True

end

/-! The calls and the handles that are not late. -/

def earlyHandles {ι : Type} [DecidableEq ι] (p : ι) : List ι → List Bool → Nat
  | q :: owners, late :: marks =>
    earlyHandles p owners marks + if q = p ∧ late = false then 1 else 0
  | _, _ => 0

section
variable {ι : Type} [DecidableEq ι] {p : ι}

theorem earlyHandles_le (owners : List ι) (marks : List Bool) :
    earlyHandles p owners marks ≤ owners.countP fun q => q = p := by
  induction owners generalizing marks with
  | nil => exact Nat.zero_le _
  | cons q owners ih =>
    cases marks with
    | nil => exact Nat.zero_le _
    | cons late marks =>
      have before := ih marks
      have one : (if q = p ∧ late = false then 1 else 0) ≤ if q = p then 1 else 0 := by
        by_cases same : q = p
        · rw [if_pos same]
          split_ifs <;> decide
        · rw [if_neg fun both => same both.1, if_neg same]
      simp only [earlyHandles, List.countP_cons, decide_eq_true_eq]
      omega

theorem earlyHandles_eraseIdx (owners : List ι) (marks : List Bool) (i : Nat) :
    earlyHandles p (owners.eraseIdx i) (marks.eraseIdx i) +
      (if owners[i]? = some p ∧ marks[i]? = some false then 1 else 0) =
        earlyHandles p owners marks := by
  induction owners generalizing marks i with
  | nil => simp [earlyHandles]
  | cons q owners ih =>
    cases marks with
    | nil => simp [earlyHandles]
    | cons late marks =>
      cases i with
      | zero => simp [earlyHandles]
      | succ i =>
        have before := ih marks i
        simp only [List.eraseIdx_cons_succ, List.getElem?_cons_succ, earlyHandles]
        omega

end

section
variable {ι θ : Type} [DecidableEq θ] {p : ι} {x y : Lane ι θ} {action : Action ι θ}
  {got lost : Nat} {late late' : θ → Bool}

/-- Where marks are only added and every new `acquire` is marked, no more early calls are looking
or acquiring after a step. -/
theorem early_fall (step : LaneStep p x action got lost y)
    (grow : ∀ t, late t = true → late' t = true)
    (begun : ∀ t q, action = .acquire t q → late' t = true) (t : θ) :
    lookingAt (hide .idle late' y.threads t) ≤ lookingAt (hide .idle late x.threads t) ∧
      acquiringAt (hide .idle late' y.threads t) ≤ acquiringAt (hide .idle late x.threads t) := by
  unfold hide
  by_cases marked : late' t = true
  · rw [if_pos marked]
    exact ⟨Nat.zero_le _, Nat.zero_le _⟩
  · have unmarked : late t ≠ true := fun before => marked (grow t before)
    rw [if_neg marked, if_neg unmarked]
    exact threads_fall step t fun q starts => marked (begun t q starts)

theorem tally_early_fall (tracked : x.Tracked) (step : LaneStep p x action got lost y)
    (grow : ∀ t, late t = true → late' t = true)
    (begun : ∀ t q, action = .acquire t q → late' t = true) :
    tally lookingAt (hide .idle late' y.threads) ≤ tally lookingAt (hide .idle late x.threads) ∧
      tally acquiringAt (hide .idle late' y.threads) ≤
        tally acquiringAt (hide .idle late x.threads) := by
  have mostly := tracked.mostly.hide late
  have mostly' := (mostly_step tracked.mostly step).hide late'
  exact ⟨tally_le_tally mostly' mostly rfl fun t => (early_fall step grow begun t).1,
    tally_le_tally mostly' mostly rfl fun t => (early_fall step grow begun t).2⟩

theorem stats_cases (step : LaneStep p x action got lost y) {pool after : FastBufferPool}
    (here : x.pool = some pool) (there : y.pool = some after) :
    after.stats = pool.stats ∨ after.stats = pool.countAcquired.stats ∨
    (∃ t item, action = .advance t ∧ x.threads t = .acquireCache p ∧
      y.threads = Function.update x.threads t (.acquireDone p item) ∧
      after.stats = pool.countHit.stats) ∨
    (∃ t, x.threads t = .acquireEmpty p ∧ after.stats = pool.countAllocated.stats) ∨
    ∃ t i, action = .drop t i ∧ after.stats = pool.countReturned.stats := by
  cases step with
  | elsewhere | quiet | handed | lose =>
    have same : some pool = some after := here.symm.trans there
    cases same
    exact Or.inl rfl
  | new absent => exact absurd (absent.symm.trans here) (by simp)
  | works stands found works =>
    cases here.symm.trans found
    cases there
    exact Or.inl (works_counts works).1
  | acquire idle found =>
    cases here.symm.trans found
    cases there
    exact Or.inr (Or.inl rfl)
  | hit pc found =>
    cases here.symm.trans found
    cases there
    exact Or.inr (Or.inr (Or.inl ⟨_, _, rfl, pc, rfl, rfl⟩))
  | allocated pc found =>
    cases here.symm.trans found
    cases there
    exact Or.inr (Or.inr (Or.inr (Or.inl ⟨_, pc, rfl⟩)))
  | drop idle found live =>
    cases here.symm.trans found
    cases there
    exact Or.inr (Or.inr (Or.inr (Or.inr ⟨_, _, rfl, rfl⟩)))

theorem hits_step (tracked : x.Tracked) (step : LaneStep p x action got lost y)
    (still : ∀ t, action = .advance t → late' = late) {pool after : FastBufferPool}
    (here : x.pool = some pool) (there : y.pool = some after) :
    after.stats.cacheHits = pool.stats.cacheHits ∨
      ∃ t, action = .advance t ∧ x.threads t = .acquireCache p ∧
        after.stats.cacheHits = usizeAdd pool.stats.cacheHits 1 ∧
        (late t = false → tally lookingAt (hide .idle late' y.threads) + 1 =
          tally lookingAt (hide .idle late x.threads)) := by
  rcases stats_cases step here there with same | same | ⟨t, item, rfl, pc, threads, same⟩ |
    ⟨t, -, same⟩ | ⟨t, i, -, same⟩
  · exact Or.inl (congrArg FastPoolStatsInner.cacheHits same :)
  · exact Or.inl (congrArg FastPoolStatsInner.cacheHits same :)
  · refine Or.inr ⟨t, rfl, pc, (congrArg FastPoolStatsInner.cacheHits same :), fun early => ?_⟩
    have looks := tally_update (w := lookingAt) (tracked.mostly.hide late) rfl t
      (.acquireDone p item)
    have stands : hide .idle late x.threads t = .acquireCache p := by
      rw [hide, early]
      exact pc
    rw [still t rfl, threads, hide_update, early]
    rw [stands] at looks
    exact looks
  · exact Or.inl (congrArg FastPoolStatsInner.cacheHits same :)
  · exact Or.inl (congrArg FastPoolStatsInner.cacheHits same :)

theorem returned_step (step : LaneStep p x action got lost y) (other : ∀ t i, action ≠ .drop t i)
    {pool after : FastBufferPool} (here : x.pool = some pool) (there : y.pool = some after) :
    after.stats.returned = pool.stats.returned := by
  rcases stats_cases step here there with same | same | ⟨t, item, -, -, -, same⟩ | ⟨t, -, same⟩ |
    ⟨t, i, dropped, -⟩
  · exact (congrArg FastPoolStatsInner.returned same :)
  · exact (congrArg FastPoolStatsInner.returned same :)
  · exact (congrArg FastPoolStatsInner.returned same :)
  · exact (congrArg FastPoolStatsInner.returned same :)
  · exact absurd dropped (other t i)

theorem allocated_le (tracked : x.Tracked) (ordered : InOrder x)
    (step : LaneStep p x action got lost y) {pool after : FastBufferPool} (here : x.pool = some pool)
    (there : y.pool = some after) : pool.stats.allocated ≤ after.stats.allocated := by
  rcases stats_cases step here there with same | same | ⟨t, item, -, -, -, same⟩ | ⟨t, pc, same⟩ |
    ⟨t, i, -, same⟩
  · exact (congrArg FastPoolStatsInner.allocated same).ge
  · exact (congrArg FastPoolStatsInner.allocated same).ge
  · exact (congrArg FastPoolStatsInner.allocated same).ge
  · have one : lookingAt (x.threads t) ≤ looking x := le_tally tracked.mostly rfl t
    rw [pc] at one
    obtain ⟨counted, looked, given⟩ := ordered pool here
    simp only [lookingAt] at one
    simp only [same, FastBufferPool.countAllocated]
    rw [usizeAdd_of_lt (by omega)]
    omega
  · exact (congrArg FastPoolStatsInner.allocated same).ge

end

section
variable {ι θ : Type} [DecidableEq ι] [DecidableEq θ] {p : ι} {v : View ι θ}
  {action : Action ι θ} {u : World ι θ}

/-- The buffers out by calls that are not late: their handles, and those they are to return. -/
noncomputable def earlyOut (p : ι) (s : World ι θ) (calls : θ → Bool) (handles : List Bool) : Nat :=
  earlyHandles p (s.held.map FastHandle.pool) handles +
    tally acquiringAt (hide .idle calls (s.lane p).threads)

noncomputable def earlyLooking (p : ι) (s : World ι θ) (calls : θ → Bool) : Nat :=
  tally lookingAt (hide .idle calls (s.lane p).threads)

omit [DecidableEq ι] in
theorem markCalls_grow (past : v.reader.past = true) (action : Action ι θ) (t : θ)
    (marked : v.lateCalls t = true) : v.markCalls action t = true := by
  cases action with
  | acquire a q =>
    simp only [View.markCalls, Function.update_apply, past]
    split_ifs
    · rfl
    · exact marked
  | _ => exact marked

omit [DecidableEq ι] in
theorem markCalls_begun (past : v.reader.past = true) (t : θ) (q : ι) :
    v.markCalls (.acquire t q) t = true := by
  simp [View.markCalls, past]

omit [DecidableEq ι] [DecidableEq θ] in
theorem owners_set {held : List (FastHandle ι)} {i : Nat} {handle : FastHandle ι}
    (found : held[i]? = some handle) (b : Buffer) :
    (held.set i (handle.withBuffer b)).map FastHandle.pool = held.map FastHandle.pool := by
  obtain ⟨inside, rfl⟩ := List.getElem?_eq_some_iff.mp found
  rw [List.map_set]
  refine List.ext_getElem (by simp) fun j _ _ => ?_
  by_cases same : i = j
  · subst same
    simp [FastHandle.withBuffer]
  · simp [List.getElem_set_ne same]

theorem held_step (step : Step v.world action u) :
    (∃ t q item, action = .advance t ∧ v.world.threads t = .acquireDone q item ∧
      u = { v.world.setPc t .idle with held := ⟨q, item⟩ :: v.world.held }) ∨
    (∃ i, u.held = v.world.held.eraseIdx i ∧ v.markHandles action = v.lateHandles.eraseIdx i ∧
      (action = .dropNow i ∨ action = .leak i ∨ ∃ t, action = .drop t i)) ∨
    (u.held.map FastHandle.pool = v.world.held.map FastHandle.pool ∧
      v.markHandles action = v.lateHandles ∧ ∀ t i, action ≠ .drop t i) := by
  cases step with
  | handed pc => exact Or.inl ⟨_, _, _, rfl, pc, rfl⟩
  | drop idle found here => exact Or.inr (Or.inl ⟨_, rfl, rfl, Or.inr (Or.inr ⟨_, rfl⟩)⟩)
  | dropNow found => exact Or.inr (Or.inl ⟨_, rfl, rfl, Or.inl rfl⟩)
  | leak found => exact Or.inr (Or.inl ⟨_, rfl, rfl, Or.inr (Or.inl rfl)⟩)
  | use found stepped => exact Or.inr (Or.inr ⟨owners_set found _, rfl, by simp⟩)
  | replace found => exact Or.inr (Or.inr ⟨owners_set found _, rfl, by simp⟩)
  | _ => exact Or.inr (Or.inr ⟨rfl, by simp [View.markHandles, *], by simp⟩)

theorem handed_out (tracked : (v.world.lane p).Tracked) {t : θ} {q : ι} {item : Item}
    (pc : v.world.threads t = .acquireDone q item) :
    earlyOut p { v.world.setPc t .idle with held := ⟨q, item⟩ :: v.world.held } v.lateCalls
        (v.lateCalls t :: v.lateHandles) ≤
      earlyOut p v.world v.lateCalls v.lateHandles := by
  have calls := tally_update (w := acquiringAt) (tracked.mostly.hide v.lateCalls) rfl t .idle
  have threads : (({ v.world.setPc t .idle with held := ⟨q, item⟩ :: v.world.held } :
      World ι θ).lane p).threads = Function.update (v.world.lane p).threads t .idle :=
    congrArg Lane.threads (lane_setPc v.world p t .idle)
  have stands : (v.world.lane p).threads t = (Pc.acquireDone q item).on p := congrArg (Pc.on p) pc
  unfold earlyOut
  rw [threads, hide_update, ite_self]
  simp only [hide, stands] at calls
  simp only [List.map_cons, earlyHandles]
  have one : (if q = p ∧ v.lateCalls t = false then 1 else 0) ≤
      acquiringAt (if v.lateCalls t = true then .idle else (Pc.acquireDone q item).on p) := by
    split_ifs with early late late
    · exact absurd (early.2.symm.trans late) (by simp)
    · rw [early.1, Pc.Of.on_self (Or.inr rfl)]
      exact le_rfl
    · exact Nat.zero_le _
    · exact Nat.zero_le _
  change _ + tally acquiringAt (Function.update (hide .idle v.lateCalls _) t .idle) ≤ _
  change tally acquiringAt (Function.update (hide .idle v.lateCalls _) t .idle) + _ = _ + 0 at calls
  omega

theorem returned_drop {s : World ι θ} {t : θ} {i : Nat} (step : Step s (.drop t i) u)
    {pool after : FastBufferPool} (here : s.pools p = some pool) (there : u.pools p = some after) :
    after.stats.returned = pool.stats.returned ∨
      ∃ handle, s.held[i]? = some handle ∧ handle.pool = p ∧
        after.stats.returned = usizeAdd pool.stats.returned 1 := by
  cases step with
  | drop idle found owner =>
    rename_i handle other
    change Function.update s.pools handle.pool (some other.countReturned) p = some after at there
    by_cases same : handle.pool = p
    · subst same
      rw [here] at owner
      cases owner
      rw [Function.update_self] at there
      cases there
      exact Or.inr ⟨handle, found, rfl, rfl⟩
    · rw [Function.update_of_ne (Ne.symm same), here] at there
      cases there
      exact Or.inl rfl

theorem returns_taken (tracked : (v.world.lane p).Tracked) (past : v.reader.past = true)
    (step : Step v.world action u)
    (inTime : ∀ t i, action = .drop t i → ∀ handle, v.world.held[i]? = some handle →
      handle.pool = p → v.lateHandles[i]? = some false)
    {pool after : FastBufferPool} (here : v.world.pools p = some pool)
    (there : u.pools p = some after) :
    (after.stats.returned = pool.stats.returned ∧
      earlyOut p u (v.markCalls action) (v.markHandles action) ≤
        earlyOut p v.world v.lateCalls v.lateHandles) ∨
    (after.stats.returned = usizeAdd pool.stats.returned 1 ∧
      earlyOut p u (v.markCalls action) (v.markHandles action) + 1 ≤
        earlyOut p v.world v.lateCalls v.lateHandles) := by
  have lane := lane_step step p
  have calls := (tally_early_fall tracked lane (markCalls_grow past action)
    fun t q starts => starts ▸ markCalls_begun past t q).2
  rcases held_step step with ⟨t, q, item, rfl, pc, rfl⟩ | ⟨i, held, marks, ends⟩ |
    ⟨owners, marks, other⟩
  · have marks : v.markHandles (.advance t) = v.lateCalls t :: v.lateHandles := by
      simp [View.markHandles, pc]
    rw [marks]
    exact Or.inl ⟨returned_step lane (by simp) here there, handed_out tracked pc⟩
  · have erased := earlyHandles_eraseIdx (p := p) (v.world.held.map FastHandle.pool)
      v.lateHandles i
    rw [List.eraseIdx_map] at erased
    unfold earlyOut
    rw [held, marks]
    rcases ends with rfl | rfl | ⟨t, rfl⟩
    · exact Or.inl ⟨returned_step lane (by simp) here there, by omega⟩
    · exact Or.inl ⟨returned_step lane (by simp) here there, by omega⟩
    · rcases returned_drop step here there with same | ⟨handle, found, owner, counted⟩
      · exact Or.inl ⟨same, by omega⟩
      · have early := inTime t i rfl handle found owner
        have mine : (v.world.held.map FastHandle.pool)[i]? = some p := by
          rw [List.getElem?_map, found, Option.map_some, owner]
        rw [if_pos ⟨mine, early⟩] at erased
        exact Or.inr ⟨counted, by omega⟩
  · unfold earlyOut
    rw [owners, marks]
    exact Or.inl ⟨returned_step lane other here there, by omega⟩

theorem no_hit {s : World ι θ} {t : θ} (step : Step s (.advance t) u)
    (pc : s.threads t = .acquireCache p) (empty : (s.caches t).getLast? = none)
    {pool after : FastBufferPool} (here : s.pools p = some pool) (there : u.pools p = some after) :
    after.stats.cacheHits = pool.stats.cacheHits := by
  cases step with
  | hit at' found top => exact absurd (empty.symm.trans top) (by simp)
  | acquirePop at' found top items =>
    cases pc.symm.trans at'
    cases here.symm.trans found
    change Function.update s.pools p (some (pool.dequeue _)) p = some after at there
    rw [Function.update_self] at there
    cases there
    rfl
  | acquireMiss at' found top items =>
    cases here.symm.trans there
    rfl
  | _ => simp_all

theorem hits_taken (tracked : (v.world.lane p).Tracked) (past : v.reader.past = true)
    (step : Step v.world action u)
    (inTime : ∀ t, action = .advance t → v.world.threads t = .acquireCache p →
      (v.world.caches t).getLast? ≠ none → v.lateCalls t = false)
    {pool after : FastBufferPool} (here : v.world.pools p = some pool)
    (there : u.pools p = some after) :
    (after.stats.cacheHits = pool.stats.cacheHits ∧
      earlyLooking p u (v.markCalls action) ≤ earlyLooking p v.world v.lateCalls) ∨
    (after.stats.cacheHits = usizeAdd pool.stats.cacheHits 1 ∧
      earlyLooking p u (v.markCalls action) + 1 ≤ earlyLooking p v.world v.lateCalls) := by
  have lane := lane_step step p
  have calls := (tally_early_fall tracked lane (markCalls_grow past action)
    fun t q starts => starts ▸ markCalls_begun past t q).1
  have still : ∀ t, action = .advance t → v.markCalls action = v.lateCalls := by
    rintro t rfl
    rfl
  rcases hits_step tracked lane still here there with same | ⟨t, rfl, pc, counted, taken⟩
  · exact Or.inl ⟨same, calls⟩
  · have at' : v.world.threads t = .acquireCache p := eq_of_on pc (by simp)
    have found : (v.world.caches t).getLast? ≠ none := by
      intro empty
      have same := no_hit step at' empty here there
      simp only [counted, usizeAdd] at same
      omega
    exact Or.inr ⟨counted, (taken (inTime t rfl at' found)).le⟩

/-- What has been loaded is in order with what is still to be loaded. -/
def Loaded (p : ι) (v : View ι θ) (pool : FastBufferPool) : Prop :=
  match v.reader with
  | .start | .available _ => True
  | .allocated _ b => b ≤ pool.stats.allocated
  | .acquired _ b c => Ordered ⟨b, c, pool.stats.returned, pool.stats.cacheHits⟩
    (earlyLooking p v.world v.lateCalls) (earlyOut p v.world v.lateCalls v.lateHandles)
  | .returned _ b c d => Ordered ⟨b, c, d, pool.stats.cacheHits⟩
    (earlyLooking p v.world v.lateCalls) 0
  | .done stats => Ordered ⟨stats.allocated, stats.acquired, stats.returned, stats.cacheHits⟩ 0 0

structure Sound (p : ι) (v : View ι θ) : Prop where
  tracked : (v.world.lane p).Tracked
  inOrder : InOrder (v.world.lane p)
  loaded : v.reader = .start ∨ ∃ pool, v.world.pools p = some pool ∧ Loaded p v pool

omit [DecidableEq θ] in
theorem sound_start (p : ι) : Sound p (View.start : View ι θ) :=
  ⟨tracked_empty p, (fun _ there => nomatch there), Or.inl rfl⟩

omit [DecidableEq θ] in
theorem early_le (tracked : (v.world.lane p).Tracked) :
    earlyLooking p v.world v.lateCalls ≤ looking (v.world.lane p) ∧
      earlyOut p v.world v.lateCalls v.lateHandles ≤
        (v.world.lane p).live + acquiring (v.world.lane p) := by
  have handles := earlyHandles_le (p := p) (v.world.held.map FastHandle.pool) v.lateHandles
  have owned : (v.world.held.map FastHandle.pool).countP (fun q => q = p) = live p v.world := by
    rw [List.countP_map]
    rfl
  rw [owned] at handles
  exact ⟨tally_hide_le tracked.mostly rfl v.lateCalls,
    Nat.add_le_add handles (tally_hide_le tracked.mostly rfl v.lateCalls)⟩

theorem sound_load {w : View ι θ} (sound : Sound p v) (taken : step p v .load = some w) :
    Sound p w := by
  obtain ⟨pool, here, later⟩ := Option.bind_eq_some_iff.mp taken
  obtain ⟨reader, loaded, later⟩ := Option.bind_eq_some_iff.mp later
  cases later
  refine ⟨sound.tracked, sound.inOrder, Or.inr ⟨pool, here, ?_⟩⟩
  obtain ⟨counted, looked, given⟩ := sound.inOrder pool here
  obtain ⟨looks, out⟩ := early_le sound.tracked
  have kept : v.reader = .start ∨ Loaded p v pool := by
    rcases sound.loaded with start | ⟨other, found, loaded⟩
    · exact Or.inl start
    · cases here.symm.trans found
      exact Or.inr loaded
  unfold Loaded at kept ⊢
  cases state : v.reader with
  | start =>
    rw [state] at loaded
    cases loaded
    trivial
  | available a =>
    rw [state] at loaded
    cases loaded
    exact le_rfl
  | allocated a b =>
    rw [state] at loaded
    cases loaded
    simp only [state, reduceCtorEq, false_or] at kept
    exact ⟨counted, by simp only; omega, by simp only; omega⟩
  | acquired a b c =>
    rw [state] at loaded
    cases loaded
    simp only [state, reduceCtorEq, false_or] at kept
    exact kept.mono le_rfl (Nat.zero_le _)
  | returned a b c d =>
    rw [state] at loaded
    cases loaded
    simp only [state, reduceCtorEq, false_or] at kept
    exact kept.mono (Nat.zero_le _) le_rfl
  | done stats =>
    rw [state] at loaded
    cases loaded

theorem ordered_hits {stats : FastPoolStatsInner} {looking looking' out hits : Nat}
    (ordered : Ordered stats looking out)
    (moved : hits = stats.cacheHits ∧ looking' ≤ looking ∨
      hits = usizeAdd stats.cacheHits 1 ∧ looking' + 1 ≤ looking) :
    Ordered { stats with cacheHits := hits } looking' out := by
  rcases moved with ⟨rfl, fewer⟩ | ⟨rfl, fewer⟩
  · exact ordered.mono fewer le_rfl
  · exact (ordered.mono fewer le_rfl).hit

theorem ordered_returns {stats : FastPoolStatsInner} {looking out out' returned : Nat}
    (ordered : Ordered stats looking out)
    (moved : returned = stats.returned ∧ out' ≤ out ∨
      returned = usizeAdd stats.returned 1 ∧ out' + 1 ≤ out) :
    Ordered { stats with returned := returned } looking out' := by
  rcases moved with ⟨rfl, fewer⟩ | ⟨rfl, fewer⟩
  · exact ordered.mono le_rfl fewer
  · exact (ordered.mono le_rfl fewer).giveBack

theorem sound_pool {w : View ι θ} (sound : Sound p v) (inTime : InTime p v (.pool action))
    (taken : step p v (.pool action) = some w) : Sound p w := by
  obtain ⟨u, next, later⟩ := Option.bind_eq_some_iff.mp taken
  cases later
  have moved := step_of_taken next
  have lane := lane_step moved p
  have small : ∀ pool, v.world.pools p = some pool → pool.stats.acquired + gets p action < 2 ^ 64 := by
    intro pool here
    have counted := (sound.inOrder pool here).counted
    cases action with
    | acquire t q =>
      simp only [gets]
      split_ifs with same
      · exact inTime same pool here
      · exact counted
    | _ => exact counted
  refine ⟨tracked_step sound.tracked lane, inOrder_step sound.tracked sound.inOrder small lane, ?_⟩
  rcases sound.loaded with start | ⟨pool, here, loaded⟩
  · exact Or.inl start
  · obtain ⟨after, there, -⟩ := queue_step lane here
    refine Or.inr ⟨after, there, ?_⟩
    unfold Loaded at loaded ⊢
    cases state : v.reader with
    | start | available => trivial
    | allocated a b =>
      simp only [state] at loaded
      exact loaded.trans (allocated_le sound.tracked sound.inOrder lane here there)
    | acquired a b c =>
      have past : v.reader.past = true := by rw [state]; rfl
      have hits := hits_taken sound.tracked past moved
        (by rintro t rfl; simpa only [InTime, state] using inTime) here there
      have returns := returns_taken sound.tracked past moved
        (by rintro t i rfl; simpa only [InTime, state] using inTime) here there
      simp only [state] at loaded
      exact ordered_returns (ordered_hits loaded hits) returns
    | returned a b c d =>
      have past : v.reader.past = true := by rw [state]; rfl
      have hits := hits_taken sound.tracked past moved
        (by rintro t rfl; simpa only [InTime, state] using inTime) here there
      simp only [state] at loaded
      exact ordered_hits loaded hits
    | done stats =>
      simp only [state] at loaded
      exact loaded

/-- Where the other threads' counts come in time, every snapshot is in order: no rate exceeds 100
percent, and `in_use()` is a difference that saturates nowhere. -/
theorem snapshot_in_order (run : Reaches (Guarded (InTime p) (Taken p)) View.start v)
    {stats : FastPoolStats} (done : v.reader = .done stats) :
    (stats.cacheHits ≤ stats.acquired ∧ stats.allocated + stats.cacheHits ≤ stats.acquired ∧
      stats.returned ≤ stats.acquired) ∧
    (∀ f64 : Rounding, stats.cacheHitRate f64 ≤ 100 ∧ stats.poolHitRate f64 ≤ 100) ∧
    stats.inUse + stats.returned = stats.acquired := by
  have sound : Sound p v := run.keeps (sound_start p) fun _ move _ sound ⟨inTime, taken⟩ => by
    cases move with
    | pool action => exact sound_pool sound inTime taken
    | load => exact sound_load sound taken
  have loaded : Ordered ⟨stats.allocated, stats.acquired, stats.returned, stats.cacheHits⟩ 0 0 := by
    rcases sound.loaded with start | ⟨pool, -, loaded⟩
    · rw [start] at done
      cases done
    · simpa only [Loaded, done] using loaded
  obtain ⟨-, looked, given⟩ := loaded
  simp only [Nat.add_zero] at looked given
  refine ⟨⟨by omega, looked, given⟩, fun f64 => ⟨percent_le f64 (by omega), percent_le f64 ?_⟩, ?_⟩
  · exact Nat.sub_le _ _
  · exact Nat.sub_add_cancel given

theorem snapshot_in_order_two :
    ∃ v : View Unit Bool,
      exec (step ()) View.start [.pool (.new () ⟨8, 2, 0⟩), .pool (.acquire false ()), .load, .load,
        .load, .pool (.acquire true ()), .pool (.advance true), .pool (.advance false), .load,
        .load] = some v ∧
      v.reader = .done ⟨0, 0, 1, 0, 0, 0⟩ ∧
      (⟨0, 0, 1, 0, 0, 0⟩ : FastPoolStats).inUse + 0 = 1 := by
  obtain ⟨v, script, done⟩ : ∃ v : View Unit Bool,
      exec (step ()) View.start [.pool (.new () ⟨8, 2, 0⟩), .pool (.acquire false ()), .load, .load,
        .load, .pool (.acquire true ()), .pool (.advance true), .pool (.advance false), .load,
        .load] = some v ∧
      v.reader = .done ⟨0, 0, 1, 0, 0, 0⟩ := ⟨_, rfl, rfl⟩
  have meets : Meets (step ()) (InTime ()) (View.start : View Unit Bool)
      [.pool (.new () ⟨8, 2, 0⟩), .pool (.acquire false ()), .load, .load, .load,
        .pool (.acquire true ()), .pool (.advance true), .pool (.advance false), .load, .load] := by
    refine ⟨trivial, ?_, trivial, trivial, trivial, ?_, ?_, ?_, trivial, trivial, trivial⟩
    · rintro _ _ ⟨⟩
      decide
    · rintro _ _ ⟨⟩
      decide
    · intro _ filled
      exact absurd rfl filled
    · intro _ filled
      exact absurd rfl filled
  exact ⟨v, script, done, (snapshot_in_order (.of_script script meets) done).2.2⟩

/-- One buffer goes round twice while the snapshot is taken: it shows two returns and two cache
hits for one `acquire`. -/
theorem snapshot_out_of_order :
    ∃ v : View Unit Unit, ∃ stats : FastPoolStats,
      exec (step ()) View.start ([.pool (.new () ⟨8, 2, 0⟩), .pool (.acquire () ()),
        .pool (.advance ()), .pool (.advance ()), .pool (.advance ()), .pool (.drop () 0),
        .pool (.advance ()), .load, .load, .load, .pool (.acquire () ()), .pool (.advance ()),
        .pool (.advance ()), .pool (.drop () 0), .pool (.advance ()), .load, .pool (.acquire () ()),
        .pool (.advance ()), .load]) = some v ∧
      v.reader = .done stats ∧ stats = ⟨0, 1, 1, 2, 2, 0⟩ ∧ ¬ stats.cacheHits ≤ stats.acquired ∧
      ¬ stats.allocated + stats.cacheHits ≤ stats.acquired ∧ ¬ stats.returned ≤ stats.acquired :=
  ⟨_, _, rfl, rfl, rfl, by decide, by decide, by decide⟩

end

end Secbuf.Snapshot
