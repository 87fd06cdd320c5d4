import Secbuf.StandardLane
import Secbuf.Unwinding

/-! The mutex-based pool when calls panic. A panic with the lock held poisons it, and every later
call that locks it panics at `lock().unwrap()`, a handle's `drop` among them. -/

namespace Secbuf.StandardPool
open Calls Storage BufferCore Custody Unwinding

/-- The pools, and of each whether its mutex is poisoned. -/
structure Locked (ι : Type) where
  world : World ι
  poisoned : ι → Bool

section
variable {ι : Type}

def unpoisoned (w : World ι) : Locked ι := ⟨w, fun _ => false⟩

def Locked.empty : Locked ι := unpoisoned World.empty

def callable (s : World ι) : Action ι → Bool
  | .new p _ => (s.pools p).isNone
  | .acquire p | .grow p _ | .shrink p | .clear p => (s.pools p).isSome
  | .drop i | .dropNow i | .leak i | .use i _ | .replace i _ => s.held[i]?.isSome

def locks (s : World ι) : Action ι → Option ι
  | .acquire p | .grow p _ | .shrink p | .clear p => some p
  | .drop i => s.held[i]?.map Handle.pool
  | _ => none

/-- What is left by a call that finds the mutex poisoned: `drop` has taken the handle's buffer. -/
def turnedAway (s : World ι) : Action ι → World ι
  | .drop i => { s with held := s.held.eraseIdx i }
  | _ => s

variable [DecidableEq ι]

/-- What is left by a call that panics with the lock held. `acquire` has counted by then, and
`grow` fails at its first buffer. -/
def unwound (s : World ι) : Action ι → World ι
  | .acquire p =>
    match s.pools p with
    | some pool => s.setPool p { pool with
        totalAcquired := usizeAdd pool.totalAcquired 1
        totalAllocated := usizeAdd pool.totalAllocated 1 }
    | none => s
  | _ => s

def opened (poisoned : ι → Bool) : Action ι → ι → Bool
  | .new p _ => Function.update poisoned p false
  | _ => poisoned

@[simp] theorem opened_new (poisoned : ι → Bool) (p : ι) (config : PoolConfig) :
    opened poisoned (.new p config) p = false := by
  rw [opened, Function.update_self]

def underLock (s : Locked ι) (p : ι) (action : Action ι) : Ending (Locked ι) :=
  if s.poisoned p then .panicked { s with world := turnedAway s.world action }
  else
    match next s.world action with
    | some world => .returned { s with world := world }
    | none => .panicked ⟨unwound s.world action, Function.update s.poisoned p true⟩

/-- How a call ends, the ones that panic included. -/
def calls : System (Locked ι) (Request (Action ι) ι)
  | s, .act action =>
    if callable s.world action then
      match locks s.world action with
      | some p => some (underLock s p action)
      | none =>
        match next s.world action with
        | some world => some (.returned ⟨world, opened s.poisoned action⟩)
        | none => some (.panicked s)
    else none
  | s, .available p | s, .stats p =>
    if (s.world.pools p).isSome then
      some (if s.poisoned p then .panicked s else .returned s)
    else none

def OnPool (p : ι) (s : Locked ι) : Request (Action ι) ι → Prop
  | .act action => locks s.world action = some p
  | .available q | .stats q => q = p

inductive Ends (s : Locked ι) : Request (Action ι) ι → Ending (Locked ι) → Prop
  | returned {action : Action ι} {p : ι} {world : World ι}
      (locked : locks s.world action = some p) (sane : s.poisoned p = false)
      (taken : Taken s.world action world) :
      Ends s (.act action) (.returned { s with world := world })
  | stopped {action : Action ι} {p : ι} (locked : locks s.world action = some p)
      (sane : s.poisoned p = false) (stuck : next s.world action = none)
      (can : callable s.world action = true) :
      Ends s (.act action)
        (.panicked ⟨unwound s.world action, Function.update s.poisoned p true⟩)
  | turnedAway {action : Action ι} {p : ι} (locked : locks s.world action = some p)
      (poisoned : s.poisoned p = true) :
      Ends s (.act action) (.panicked { s with world := turnedAway s.world action })
  | unlocked {action : Action ι} {world : World ι} (free : locks s.world action = none)
      (taken : Taken s.world action world) :
      Ends s (.act action) (.returned ⟨world, opened s.poisoned action⟩)
  | failed {action : Action ι} (free : locks s.world action = none)
      (stuck : next s.world action = none) (can : callable s.world action = true) :
      Ends s (.act action) (.panicked s)
  | looked {request : Request (Action ι) ι} {p : ι} (looks : Looks p request)
      (sane : s.poisoned p = false) : Ends s request (.returned s)
  | lookedPoisoned {request : Request (Action ι) ι} {p : ι} (looks : Looks p request)
      (poisoned : s.poisoned p = true) : Ends s request (.panicked s)

variable {s : Locked ι} {request : Request (Action ι) ι} {ending : Ending (Locked ι)} {p : ι}

omit [DecidableEq ι] in
theorem onPool_of_looks (looks : Looks p request) (s : Locked ι) : OnPool p s request := by
  cases looks <;> rfl

theorem looks_end (looks : Looks p request)
    (ended : (if (s.world.pools p).isSome then
      some (if s.poisoned p then Ending.panicked s else .returned s) else none) = some ending) :
    Ends s request ending := by
  split_ifs at ended with here poisoned
  · cases ended
    exact .lookedPoisoned looks poisoned
  · cases ended
    exact .looked looks (Bool.eq_false_of_not_eq_true poisoned)

theorem ends_of_calls (ended : calls s request = some ending) : Ends s request ending := by
  cases request with
  | act action =>
    simp only [calls] at ended
    split_ifs at ended with can
    split at ended
    · rename_i p locked
      cases ended
      unfold underLock
      split_ifs with poisoned
      · exact .turnedAway locked poisoned
      · have sane := Bool.eq_false_of_not_eq_true poisoned
        split
        · rename_i world taken
          exact .returned locked sane taken
        · rename_i stuck
          exact .stopped locked sane stuck can
    · rename_i free
      split at ended
      · rename_i world taken
        cases ended
        exact .unlocked free taken
      · rename_i stuck
        cases ended
        exact .failed free stuck can
  | available p => exact looks_end .available ended
  | stats p => exact looks_end .stats ended

theorem callable_of_taken {w v : World ι} {action : Action ι} (taken : Taken w action v) :
    callable w action = true := by
  cases step_of_taken taken with
  | new absent made => simp [callable, absent]
  | acquire here | grow here | shrink here | clear here => exact Option.isSome_of_eq_some here
  | drop found | dropNow found | leak found | use found | replace found =>
    exact Option.isSome_of_eq_some found

theorem calls_of_taken {w v : World ι} {action : Action ι} (taken : Taken w action v) :
    calls (unpoisoned w) (.act action) = some (.returned (unpoisoned v)) := by
  have same : opened (fun _ : ι => false) action = fun _ => false := by
    cases action with
    | new p config => exact Function.update_eq_self p _
    | _ => rfl
  have result : next w action = some v := taken
  simp only [calls, unpoisoned, callable_of_taken taken, if_true, underLock, result, same]
  split <;> rfl

theorem reaches_calls {w v : World ι} (run : Reaches Taken w v) :
    Reaches (Went calls) (unpoisoned w) (unpoisoned v) :=
  reaches_of_returned unpoisoned Request.act (fun _ _ _ => calls_of_taken) run

/-! What every ending keeps. -/

def Configured (p : ι) (config : PoolConfig) (s : World ι) : Prop :=
  ∃ pool, s.pools p = some pool ∧ pool.config = config

section
variable {w v : World ι} {action : Action ι} {config : PoolConfig}

theorem configured_setPool {q : ι} {pool after : PoolInner} (there : Configured p config w)
    (here : w.pools q = some pool) (same : after.config = pool.config) :
    Configured p config (w.setPool q after) := by
  obtain ⟨before, found, rfl⟩ := there
  by_cases eq : p = q
  · subst eq
    rw [here] at found
    cases found
    exact ⟨after, by simp [World.setPool], same⟩
  · exact ⟨before, by simpa [World.setPool, Function.update_apply, eq] using found, rfl⟩

theorem configured_taken (there : Configured p config w) (taken : Taken w action v) :
    Configured p config v := by
  obtain ⟨pool, here, rfl⟩ := there
  obtain ⟨after, result, change⟩ := change_of_step (step_of_taken taken) here
  exact ⟨after, result, change_config change⟩

theorem configured_unwound (there : Configured p config w) (action : Action ι) :
    Configured p config (unwound w action) := by
  cases action with
  | acquire q =>
    simp only [unwound]
    split
    · rename_i pool here
      exact configured_setPool there here rfl
    · exact there
  | _ => exact there

omit [DecidableEq ι] in
theorem configured_turnedAway (there : Configured p config w) (action : Action ι) :
    Configured p config (turnedAway w action) := by
  cases action <;> exact there

end

theorem configured_ends {config : PoolConfig} (there : Configured p config s.world)
    (ends : Ends s request ending) : Configured p config ending.after.world := by
  cases ends with
  | returned locked sane taken => exact configured_taken there taken
  | stopped locked sane stuck can => exact configured_unwound there _
  | turnedAway locked poisoned => exact configured_turnedAway there _
  | unlocked free taken => exact configured_taken there taken
  | failed free stuck can => exact there
  | looked looks sane => exact there
  | lookedPoisoned looks poisoned => exact there

theorem opened_of_configured {config : PoolConfig} {action : Action ι} {t : World ι}
    (there : Configured p config s.world) (taken : Taken s.world action t) :
    opened s.poisoned action p = s.poisoned p := by
  cases step_of_taken taken with
  | new absent made =>
    rename_i q config made
    obtain ⟨pool, here, -⟩ := there
    have other : p ≠ q := by
      rintro rfl
      exact Option.some_ne_none pool (here.symm.trans absent)
    exact Function.update_of_ne other _ _
  | _ => rfl

/-! A configuration whose buffers can be made. -/

omit [DecidableEq ι] in
theorem acquire_total {pool : PoolInner} (small : pool.config.bufferSize ≤ BUF_MAX_SIZE) :
    ∃ buffer after, pool.acquire = .ok (buffer, after) := by
  unfold PoolInner.acquire
  cases pool.buffers.getLast? with
  | some buffer => exact ⟨_, _, rfl⟩
  | none =>
    obtain ⟨buffer, made, -⟩ := Buffer.new_of_le small
    rw [made]
    exact ⟨_, _, rfl⟩

omit [DecidableEq ι] in
theorem grow_total {pool : PoolInner} (small : pool.config.bufferSize ≤ BUF_MAX_SIZE)
    (targetSize : Nat) : ∃ after, pool.grow targetSize = .ok after := by
  obtain ⟨all, pushed⟩ := pushFresh_total small
    (min targetSize pool.config.maxPoolSize - pool.buffers.length) pool.buffers
  simp only [PoolInner.grow, pushed]
  exact ⟨_, rfl⟩

theorem next_total {config : PoolConfig} (small : config.bufferSize ≤ BUF_MAX_SIZE) {w : World ι}
    {action : Action ι} (there : Configured p config w) (locked : locks w action = some p) :
    ∃ v, next w action = some v := by
  obtain ⟨pool, here, rfl⟩ := there
  cases action with
  | acquire q =>
    cases locked
    obtain ⟨buffer, after, done⟩ := acquire_total small
    simp [next, here, done]
  | drop i =>
    obtain ⟨handle, found, rfl⟩ := Option.map_eq_some_iff.mp locked
    simp [next, found, here]
  | grow q targetSize =>
    cases locked
    obtain ⟨after, done⟩ := grow_total small targetSize
    simp [next, here, done]
  | shrink q | clear q =>
    cases locked
    simp [next, here]
  | new | dropNow | leak | use | replace => cases locked

structure Sane (p : ι) (config : PoolConfig) (s : Locked ι) : Prop where
  there : Configured p config s.world
  sane : s.poisoned p = false

theorem flag_ends {config : PoolConfig} (there : Configured p config s.world)
    (ends : Ends s request ending) :
    ending.after.poisoned p = s.poisoned p ∨ ending.after.poisoned p = true ∧
      ∃ action, locks s.world action = some p ∧ next s.world action = none := by
  cases ends with
  | stopped locked sane stuck can =>
    rename_i action q
    by_cases same : p = q
    · subst same
      have now : Function.update s.poisoned p true p = true := Function.update_self p true s.poisoned
      exact Or.inr ⟨now, action, locked, stuck⟩
    · have still : Function.update s.poisoned q true p = s.poisoned p :=
        Function.update_of_ne same true s.poisoned
      exact Or.inl still
  | unlocked free taken => exact Or.inl (opened_of_configured there taken)
  | _ => exact Or.inl rfl

theorem Sane.ends {config : PoolConfig} (small : config.bufferSize ≤ BUF_MAX_SIZE)
    (holds : Sane p config s) (ends : Ends s request ending) : Sane p config ending.after := by
  refine ⟨configured_ends holds.there ends, ?_⟩
  rcases flag_ends holds.there ends with same | ⟨-, action, locked, stuck⟩
  · exact same.trans holds.sane
  · obtain ⟨v, taken⟩ := next_total small holds.there locked
    rw [stuck] at taken
    cases taken

omit [DecidableEq ι] in
theorem onPool_unique {q : ι} (on : OnPool p s request) (other : OnPool q s request) : p = q := by
  cases request with
  | act action => exact Option.some.inj (on.symm.trans other)
  | available r | stats r => exact on.symm.trans other

theorem Sane.not_panics {config : PoolConfig} (small : config.bufferSize ≤ BUF_MAX_SIZE)
    (holds : Sane p config s) (on : OnPool p s request) : ¬ Panics calls s request := by
  rintro ⟨t, ended⟩
  cases ends_of_calls ended with
  | stopped locked sane stuck can =>
    obtain ⟨v, taken⟩ := next_total small holds.there on
    rw [stuck] at taken
    cases taken
  | turnedAway locked poisoned =>
    obtain rfl := Option.some.inj (on.symm.trans locked)
    exact Bool.false_ne_true (holds.sane.symm.trans poisoned)
  | failed free stuck can => exact Option.some_ne_none p (on.symm.trans free)
  | lookedPoisoned looks poisoned =>
    obtain rfl := onPool_unique on (onPool_of_looks looks s)
    exact Bool.false_ne_true (holds.sane.symm.trans poisoned)

theorem neverPanics_of_small {config : PoolConfig} (small : config.bufferSize ≤ BUF_MAX_SIZE)
    (holds : Sane p config s) : NeverPanics calls (OnPool p) s := by
  apply neverPanics_of_invariant holds
  · intro s request ending before ended
    exact before.ends small (ends_of_calls ended)
  · intro s request before on
    exact before.not_panics small on

/-! After a panic. -/

structure Poisoned (p : ι) (s : Locked ι) : Prop where
  there : ∃ config, Configured p config s.world
  poisoned : s.poisoned p = true

theorem poisoned_of_panic {config : PoolConfig} {t : Locked ι} (there : Configured p config s.world)
    (on : OnPool p s request) (ended : calls s request = some (.panicked t)) : Poisoned p t := by
  have ends := ends_of_calls ended
  refine ⟨⟨config, configured_ends there ends⟩, ?_⟩
  cases ends with
  | stopped locked sane stuck can =>
    obtain rfl := Option.some.inj (on.symm.trans locked)
    exact Function.update_self p true s.poisoned
  | turnedAway locked poisoned =>
    obtain rfl := Option.some.inj (on.symm.trans locked)
    exact poisoned
  | failed free stuck can => exact absurd (on.symm.trans free) (Option.some_ne_none p)
  | lookedPoisoned looks poisoned =>
    obtain rfl := onPool_unique on (onPool_of_looks looks s)
    exact poisoned

theorem Poisoned.ends (holds : Poisoned p s) (ends : Ends s request ending) :
    Poisoned p ending.after := by
  obtain ⟨⟨config, there⟩, poisoned⟩ := holds
  refine ⟨⟨config, configured_ends there ends⟩, ?_⟩
  rcases flag_ends there ends with same | ⟨now, -⟩
  · exact same.trans poisoned
  · exact now

theorem Poisoned.panics (holds : Poisoned p s) (on : OnPool p s request)
    (can : calls s request ≠ none) : Panics calls s request := by
  have poisoned := holds.poisoned
  cases request with
  | act action =>
    have locked : locks s.world action = some p := on
    simp only [calls, locked, underLock, poisoned, if_true] at can ⊢
    split_ifs at can with here
    · exact ⟨_, by simp only [calls, locked, underLock, poisoned, here, if_true]; rfl⟩
    · exact absurd rfl can
  | available q | stats q =>
    cases on
    simp only [calls, poisoned, if_true] at can
    split_ifs at can with here
    · exact ⟨s, by simp only [calls, poisoned, here, if_true]⟩
    · exact absurd rfl can

/-- One panic on a pool is the end of it: in every later state, whatever was called meanwhile,
every call on the pool that can be made panics. -/
theorem panics_ever_after {config : PoolConfig} {t u : Locked ι} (there : Configured p config s.world)
    (on : OnPool p s request) (ended : calls s request = some (.panicked t))
    (run : Reaches (Went calls) t u) {later : Request (Action ι) ι} (onLater : OnPool p u later)
    (can : calls u later ≠ none) : Panics calls u later := by
  have holds : Poisoned p u := by
    apply keeps_ending run (poisoned_of_panic there on ended)
    intro s request ending before ended
    exact before.ends (ends_of_calls ended)
  exact holds.panics onLater can

end

/-! Which configurations make a pool that never panics. -/

/-- A pool of this configuration, made in any program by a `new` that returns, never panics. -/
def Reliable (config : PoolConfig) : Prop :=
  ∀ (ι : Type) [DecidableEq ι] (s t : Locked ι) (p : ι), Reaches (Went calls) Locked.empty s →
    calls s (.act (.new p config)) = some (.returned t) → NeverPanics calls (OnPool p) t

theorem new_small {config : PoolConfig} {pool : PoolInner} (made : PoolInner.new config = .ok pool)
    (warmed : config.minPoolSize ≠ 0) : config.bufferSize ≤ BUF_MAX_SIZE := by
  obtain ⟨buffers, pushed, -⟩ := new_cases made
  obtain ⟨count, succ⟩ := Nat.exists_eq_succ_of_ne_zero warmed
  rw [succ] at pushed
  obtain ⟨buffer, fresh, -⟩ := pushFresh_cases pushed
  exact (Buffer.new_cases fresh).1

theorem new_returned {ι : Type} [DecidableEq ι] {s t : Locked ι} {p : ι} {config : PoolConfig}
    (ended : calls s (.act (.new p config)) = some (.returned t)) :
    ∃ pool, PoolInner.new config = .ok pool ∧ Sane p config t := by
  cases ends_of_calls ended with
  | returned locked sane taken => cases locked
  | unlocked free taken =>
    cases step_of_taken taken with
    | new absent made =>
      obtain ⟨buffers, -, rfl⟩ := new_cases made
      have here : Configured p config (s.world.setPool p ⟨buffers, config, 0, 0, 0⟩) :=
        ⟨_, Function.update_self .., rfl⟩
      exact ⟨_, made, here, opened_new s.poisoned p config⟩
  | looked looks sane => cases looks

def cold (config : PoolConfig) : Locked Unit :=
  unpoisoned (World.empty.setPool () ⟨[], config, 0, 0, 0⟩)

theorem cold_made {config : PoolConfig} (unwarmed : config.minPoolSize = 0) :
    calls Locked.empty (.act (.new () config)) = some (.returned (cold config)) := by
  apply calls_of_taken
  simp only [Taken, next, PoolInner.new, unwarmed, pushFresh]
  rfl

theorem cold_acquire {config : PoolConfig} (large : ¬ config.bufferSize ≤ BUF_MAX_SIZE) :
    Panics calls (cold config) (.act (.acquire ())) := by
  have here : (cold config).world.pools () = some ⟨[], config, 0, 0, 0⟩ := rfl
  have stuck : next (cold config).world (.acquire ()) = none := by
    simp [next, here, PoolInner.acquire, Buffer.new_too_large large]
  have can : callable (cold config).world (.acquire ()) = true := rfl
  exact ⟨_, by simp only [calls, can, if_true, locks, underLock, stuck]; rfl⟩

theorem reliable_iff (config : PoolConfig) :
    Reliable config ↔ (config.minPoolSize = 0 → config.bufferSize ≤ BUF_MAX_SIZE) := by
  constructor
  · intro reliable unwarmed
    by_contra large
    have never := reliable Unit _ _ () .refl (cold_made unwarmed)
    have on : OnPool () (cold config) (.act (.acquire ())) := rfl
    exact never.here on (cold_acquire large)
  · intro small ι _ s t p _ ended
    obtain ⟨pool, made, sane⟩ := new_returned ended
    apply neverPanics_of_small _ sane
    by_cases unwarmed : config.minPoolSize = 0
    · exact small unwarmed
    · exact new_small made unwarmed

end Secbuf.StandardPool
