import Secbuf.FastCustody
import Secbuf.FastLane
import Secbuf.Unwinding

/-! The lock-free pool when calls panic. No lock is held, so a panic ends one call and its thread
goes on. Two things panic: making a buffer that is too large, and `THREAD_CACHE.with` on a thread
whose cache has been destroyed, which only a handle's `drop` is written to survive. -/

namespace Secbuf.FastPool
open Calls Storage BufferCore BufferScript Custody Unwinding

section
variable {ι θ : Type}

def Action.pool? (s : World ι θ) : Action ι θ → Option ι
  | .acquire _ p | .warm _ p _ | .clear _ p | .clearThreadCache _ p => some p
  | .drop _ i => s.held[i]?.map FastHandle.pool
  | .advance t => (s.threads t).pool?
  | _ => none

def OnPool (p : ι) (s : World ι θ) : Request (Action ι θ) ι → Prop
  | .act action => action.pool? s = some p
  | .available q | .stats q => q = p

/-- The calls of `THREAD_CACHE.with` on a thread that is past its cache's destruction. -/
def CacheGone (s : World ι θ) : Request (Action ι θ) ι → Prop
  | .act (.acquire t _) | .act (.clearThreadCache t _) => s.tornDown t = true
  | _ => False

variable [DecidableEq ι] [DecidableEq θ]

def callable (s : World ι θ) : Action ι θ → Bool
  | .new p _ => (s.pools p).isNone
  | .acquire t p | .warm t p _ | .clear t p | .clearThreadCache t p =>
    decide (s.threads t = .idle) && (s.pools p).isSome
  | .drop t i => decide (s.threads t = .idle) && s.held[i]?.isSome
  | .advance t => !decide (s.threads t = .idle)
  | .exit t => decide (s.threads t = .idle)
  | .dropNow i | .leak i | .use i _ | .replace i _ => s.held[i]?.isSome

/-- What a panic leaves. `acquire` has counted itself before it turns to the cache, and the
allocation before it makes the buffer. -/
def unwound (s : World ι θ) : Action ι θ → World ι θ
  | .acquire _ p =>
    match s.pools p with
    | some pool => s.setPool p pool.countAcquired
    | none => s
  | .advance t =>
    match s.threads t with
    | .acquireEmpty p =>
      match s.pools p with
      | some pool => (s.setPool p pool.countAllocated).setPc t .idle
      | none => s.setPc t .idle
    | _ => s.setPc t .idle
  | _ => s

/-- How a step ends, the ones that panic included. -/
def calls : System (World ι θ) (Request (Action ι θ) ι)
  | s, .act action =>
    if callable s action then
      match next s action with
      | some u => some (.returned u)
      | none => some (.panicked (unwound s action))
    else none
  | s, .available p | s, .stats p => if (s.pools p).isSome then some (.returned s) else none

inductive Ends (s : World ι θ) : Request (Action ι θ) ι → Ending (World ι θ) → Prop
  | returned {action : Action ι θ} {u : World ι θ} (taken : Taken s action u) :
      Ends s (.act action) (.returned u)
  | stopped {action : Action ι θ} (can : callable s action = true) (stuck : next s action = none) :
      Ends s (.act action) (.panicked (unwound s action))
  | looked {request : Request (Action ι θ) ι} {p : ι} (looks : Looks p request) :
      Ends s request (.returned s)

variable {s u : World ι θ} {request : Request (Action ι θ) ι} {ending : Ending (World ι θ)} {p : ι}
  {action : Action ι θ} {config : PoolConfig}

theorem ends_of_calls (ended : calls s request = some ending) : Ends s request ending := by
  cases request with
  | act action =>
    simp only [calls] at ended
    split_ifs at ended with can
    split at ended
    · rename_i taken
      cases ended
      exact .returned taken
    · rename_i stuck
      cases ended
      exact .stopped can stuck
  | available q =>
    simp only [calls] at ended
    split_ifs at ended
    cases ended
    exact .looked .available
  | stats q =>
    simp only [calls] at ended
    split_ifs at ended
    cases ended
    exact .looked .stats

theorem callable_of_taken (taken : Taken s action u) : callable s action = true := by
  cases step_of_taken taken with
  | new absent made => simp [callable, absent]
  | acquire idle alive here | flush idle alive here => simp [callable, idle, here]
  | warm idle here | clear idle here => simp [callable, idle, here]
  | drop idle found here => simp [callable, idle, found]
  | exit idle => simp [callable, idle]
  | dropNow found | leak found | use found | replace found => exact Option.isSome_of_eq_some found
  -- The rest are steps of a call the thread is in.
  | hit pc | acquirePop pc | acquireMiss pc | acquireCounted pc | allocated pc | handed pc | stored pc
  | dropAdmitted pc | dropRefused pc | dropPushed pc | dropCounted pc | warmEnd pc | warmPushed pc
  | warmCounted pc | clearPop pc | clearEnd pc | clearCounted pc | flushEnd pc | flushAdmitted pc
  | flushRefused pc | flushPushed pc | flushCounted pc => simp [callable, pc]

theorem calls_of_taken (taken : Taken s action u) :
    calls s (.act action) = some (.returned u) := by
  have result : next s action = some u := taken
  simp only [calls, callable_of_taken taken, if_true, result]

theorem reaches_calls (run : Reaches Taken s u) : Reaches (Went calls) s u :=
  reaches_of_returned id .act (fun _ _ _ => calls_of_taken) run

/-! What every ending keeps. -/

def Configured (p : ι) (config : PoolConfig) (s : World ι θ) : Prop :=
  ∃ pool, s.pools p = some pool ∧ pool.config = config

omit [DecidableEq ι] in
theorem config_lane {x y : Lane ι θ} {got lost : Nat} {pool : FastBufferPool}
    (step : LaneStep p x action got lost y) (here : x.pool = some pool) :
    ∃ after, y.pool = some after ∧ after.config = pool.config := by
  cases step with
  | new absent length => exact absurd (here.symm.trans absent) (Option.some_ne_none pool)
  | works stands there works =>
    obtain rfl := Option.some.inj (here.symm.trans there)
    exact ⟨_, rfl, works_config works⟩
  | acquire idle there | hit pc there | allocated pc there | drop idle there live =>
    obtain rfl := Option.some.inj (here.symm.trans there)
    exact ⟨_, rfl, rfl⟩
  | elsewhere | quiet | handed | lose => exact ⟨pool, here, rfl⟩

theorem configured_taken (there : Configured p config s) (taken : Taken s action u) :
    Configured p config u := by
  obtain ⟨pool, here, rfl⟩ := there
  exact config_lane (lane_step (step_of_taken taken) p) here

theorem configured_unwound (there : Configured p config s) (action : Action ι θ) :
    Configured p config (unwound s action) := by
  obtain ⟨pool, here, rfl⟩ := there
  cases action with
  | acquire t q =>
    simp only [unwound]
    split
    · rename_i other found
      exact pools_setPool found rfl here
    · exact ⟨pool, here, rfl⟩
  | advance t =>
    simp only [unwound]
    split
    · split
      · rename_i other found
        exact pools_setPool found rfl here
      · exact ⟨pool, here, rfl⟩
    · exact ⟨pool, here, rfl⟩
  | _ => exact ⟨pool, here, rfl⟩

theorem configured_ends (there : Configured p config s) (ends : Ends s request ending) :
    Configured p config ending.after := by
  cases ends with
  | returned taken => exact configured_taken there taken
  | stopped can stuck => exact configured_unwound there _
  | looked looks => exact there

/-! A configuration whose buffers can be made. -/

def Pc.makes {ι : Type} : Pc ι → Bool
  | .acquireEmpty _ | .warm _ _ => true
  | _ => false

/-- A thread inside a call on a pool has a next step, unless it has to make a buffer that is too
large. -/
theorem advance_total (there : Configured p config s) {t : θ} {pc : Pc ι} (stands : s.threads t = pc)
    (on : pc.pool? = some p) (fits : pc.makes = true → config.bufferSize ≤ BUF_MAX_SIZE) :
    ∃ u, advance s t = some u := by
  obtain ⟨pool, here, rfl⟩ := there
  unfold advance
  rw [stands]
  cases pc with
  | idle => cases on
  | acquireDone q item => exact ⟨_, rfl⟩
  | acquireCache q =>
    cases on
    cases top : (s.caches t).getLast? with
    | some item => simp [here]
    | none => cases items : pool.globalPool.items <;> simp [here, items]
  | acquireEmpty q =>
    cases on
    obtain ⟨buffer, made, -⟩ := Buffer.new_of_le (fits rfl)
    simp [here, made]
  | dropStore q item =>
    cases on
    simp only [here]
    split_ifs with space
    · exact ⟨_, rfl⟩
    · by_cases room : pool.hasRoom <;> simp [room]
  | warm q left =>
    cases on
    obtain ⟨buffer, made, -⟩ := Buffer.new_of_le (fits rfl)
    cases left <;> simp [here, made]
  | clear q =>
    cases on
    cases items : pool.globalPool.items <;> simp [here, items]
  | flush q =>
    cases on
    cases top : (s.caches t).getLast? with
    | none => simp
    | some item => by_cases room : pool.hasRoom <;> simp [here, room]
  | acquirePopped q item | dropPush q item | dropCount q | warmCount q left | clearCount q item
  | flushPush q item | flushCount q =>
    cases on
    simp [here]

theorem next_total (small : config.bufferSize ≤ BUF_MAX_SIZE) (there : Configured p config s)
    (on : action.pool? s = some p) (can : callable s action = true)
    (alive : ¬ CacheGone s (.act action)) : ∃ u, next s action = some u := by
  cases action with
  | advance t => exact advance_total there rfl on fun _ => small
  | acquire t q | clearThreadCache t q =>
    cases on
    obtain ⟨pool, here, rfl⟩ := there
    simp only [callable, Bool.and_eq_true, decide_eq_true_eq] at can
    simp only [CacheGone, Bool.not_eq_true] at alive
    simp [next, can.1, alive, here]
  | drop t i =>
    obtain ⟨handle, found, rfl⟩ := Option.map_eq_some_iff.mp on
    obtain ⟨pool, here, rfl⟩ := there
    simp only [callable, Bool.and_eq_true, decide_eq_true_eq] at can
    simp [next, can.1, found, here]
  | warm t q targetSize | clear t q =>
    cases on
    obtain ⟨pool, here, rfl⟩ := there
    simp only [callable, Bool.and_eq_true, decide_eq_true_eq] at can
    simp [next, can.1, here]
  | new | dropNow | leak | exit | use | replace => cases on

theorem not_panics_of_small (small : config.bufferSize ≤ BUF_MAX_SIZE)
    (there : Configured p config s) (on : OnPool p s request) (alive : ¬ CacheGone s request) :
    ¬ Panics calls s request := by
  rintro ⟨u, ended⟩
  cases ends_of_calls ended with
  | stopped can stuck =>
    obtain ⟨u, taken⟩ := next_total small there on can alive
    rw [stuck] at taken
    cases taken

theorem neverPanics_of_small (small : config.bufferSize ≤ BUF_MAX_SIZE)
    (there : Configured p config s) :
    NeverPanics calls (fun s request => OnPool p s request ∧ ¬ CacheGone s request) s := by
  apply neverPanics_of_invariant there
  · intro s request ending before ended
    exact configured_ends before (ends_of_calls ended)
  · intro s request before asked
    exact not_panics_of_small small before asked.1 asked.2

theorem panics_of_stuck (can : callable s action = true) (stuck : next s action = none) :
    Panics calls s (.act action) :=
  ⟨unwound s action, by simp only [calls, can, stuck, if_true]⟩

theorem callable_of_calls (can : calls s (.act action) ≠ none) : callable s action = true := by
  by_contra cannot
  exact can (if_neg cannot)

theorem panics_of_cacheGone (gone : CacheGone s request) (can : calls s request ≠ none) :
    Panics calls s request := by
  cases request with
  | act action =>
    cases action with
    | acquire t q | clearThreadCache t q =>
      have gone : s.tornDown t = true := gone
      apply panics_of_stuck (callable_of_calls can)
      simp [next, gone]
    | _ => cases gone
  | available q | stats q => cases gone

end

/-! Which configurations make a pool that never panics. -/

/-- A pool of this configuration, made in any program by a `new` that returns, never panics while
threads have their caches. -/
def Reliable (config : PoolConfig) : Prop :=
  ∀ (ι θ : Type) [DecidableEq ι] [DecidableEq θ] (s u : World ι θ) (p : ι),
    Reaches (Went calls) World.empty s → calls s (.act (.new p config)) = some (.returned u) →
      NeverPanics calls (fun s request => OnPool p s request ∧ ¬ CacheGone s request) u

theorem fresh_small {size count serial : Nat} {items : List Item}
    (made : freshItems size count serial = .ok items) (warmed : count ≠ 0) :
    size ≤ BUF_MAX_SIZE := by
  obtain ⟨more, succ⟩ := Nat.exists_eq_succ_of_ne_zero warmed
  rw [succ] at made
  obtain ⟨buffer, rest, fresh, -, -⟩ := freshItems_cases made
  exact (Buffer.new_cases fresh).1

theorem new_returned {ι θ : Type} [DecidableEq ι] [DecidableEq θ] {s u : World ι θ} {p : ι}
    {config : PoolConfig} (ended : calls s (.act (.new p config)) = some (.returned u)) :
    (∃ items, freshItems config.bufferSize config.minPoolSize s.created = .ok items) ∧
      Configured p config u := by
  cases ends_of_calls ended with
  | returned taken =>
    cases step_of_taken taken with
    | new absent made => exact ⟨⟨_, made⟩, ⟨_, Function.update_self .., rfl⟩⟩
  | looked looks => cases looks

def cold (config : PoolConfig) : World Unit Unit :=
  World.empty.setPool () ⟨⟨[], 0⟩, config, ⟨0, 0, 0, 0⟩⟩

theorem cold_made {config : PoolConfig} (unwarmed : config.minPoolSize = 0) :
    calls World.empty (.act (.new () config)) = some (.returned (cold config)) := by
  apply calls_of_taken
  simp only [Taken, next, unwarmed, freshItems]
  rfl

def coldAcquiring (config : PoolConfig) : World Unit Unit :=
  (((cold config).setPool () ⟨⟨[], 0⟩, config, ⟨0, 1, 0, 0⟩⟩).setPc () (.acquireCache ())).setPc ()
    (.acquireEmpty ())

theorem cold_acquires (config : PoolConfig) :
    Reaches (Went calls) (cold config) (coldAcquiring config) := by
  have script : exec next (cold config) [.acquire () (), .advance ()] =
      some (coldAcquiring config) := rfl
  exact reaches_calls (Reaches.of_exec script)

theorem coldAcquiring_panics {config : PoolConfig} (large : ¬ config.bufferSize ≤ BUF_MAX_SIZE) :
    Panics calls (coldAcquiring config) (.act (.advance ())) := by
  apply panics_of_stuck rfl
  simp [next, advance, coldAcquiring, World.setPc, World.setPool, Buffer.new_too_large large]

theorem reliable_iff (config : PoolConfig) :
    Reliable config ↔ (config.minPoolSize = 0 → config.bufferSize ≤ BUF_MAX_SIZE) := by
  constructor
  · intro reliable unwarmed
    by_contra large
    have never := reliable Unit Unit _ _ () .refl (cold_made unwarmed)
    have on : OnPool () (coldAcquiring config) (.act (.advance ())) := rfl
    exact never _ (cold_acquires config) _ ⟨on, id⟩ (coldAcquiring_panics large)
  · intro small ι θ _ _ s u p _ ended
    obtain ⟨⟨items, made⟩, there⟩ := new_returned ended
    apply neverPanics_of_small _ there
    by_cases unwarmed : config.minPoolSize = 0
    · exact small unwarmed
    · exact fresh_small made unwarmed

end Secbuf.FastPool
