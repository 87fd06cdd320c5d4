import Secbuf.FastQueue

/-! How many buffers the global queue of a lock-free pool can hold. A returned buffer is let in
by one look at the counter, so the queue runs over by no more than a buffer for each thread;
`warm` pushes a whole batch after one look. -/

namespace Secbuf.QueueBound
open Calls Storage BufferCore Custody Tally FastPool

section
variable {ι θ : Type}

/-- A call that has been let in and has still to push its buffer. -/
def admittedAt : Pc ι → Nat
  | .dropPush _ _ | .flushPush _ _ => 1
  | _ => 0

noncomputable def admitted (x : Lane ι θ) : Nat := tally admittedAt x.threads

/-- Where a look at the counter or a push of `warm` leads to. -/
def coming : Pc ι → Nat
  | .dropPush _ _ | .flushPush _ _ | .warmCount _ _ => 1
  | _ => 0

/-- The queue and what is let in grow by what comes, and by nothing else. -/
theorem works_grows {p : ι} {before pc : Pc ι} {pool after : FastBufferPool}
    (works : Works p before pool pc after) :
    after.globalPool.items.length + admittedAt pc ≤
      pool.globalPool.items.length + admittedAt before + coming pc := by
  cases works with
  | admitDrop | admitFlush | countDrop | countFlush | countWarm | countAcquire | countClear =>
    exact Nat.le_refl _
  | pushDrop | pushFlush | pushWarm =>
    apply Nat.le_of_eq
    exact List.length_append
  | popAcquire items | popClear items =>
    rw [items]
    exact Nat.le_succ _

theorem admittedAt_add_pushing_le (pc : Pc ι) : admittedAt pc + pc.counting.pushing ≤ 1 := by
  cases pc <;> simp [admittedAt, Pc.counting, CountedQueue.Pc.pushing]

section
variable [DecidableEq θ] {x : Lane ι θ}

theorem admitted_go (mostly : Mostly .idle x.threads) {t : θ} {before : Pc ι}
    (stands : x.threads t = before) (pc : Pc ι) (after : FastBufferPool) :
    admitted (x.go t pc after) + admittedAt before = admitted x + admittedAt pc :=
  calls_go mostly rfl stands pc after

theorem admitted_same (mostly : Mostly .idle x.threads) {t : θ} {before pc : Pc ι}
    (stands : x.threads t = before) (same : admittedAt pc = admittedAt before) {length cap : Nat}
    (bounded : length + admitted x ≤ cap) :
    length + tally admittedAt (Function.update x.threads t pc) ≤ cap := by
  have moved := tally_update (w := admittedAt) mostly rfl t pc
  rw [stands, same] at moved
  exact Nat.add_right_cancel moved ▸ bounded

end

variable [Fintype θ] {x y : Lane ι θ}

/-- Room for one more, within a buffer for each thread. -/
def Below (x : Lane ι θ) (pool : FastBufferPool) : Prop :=
  pool.globalPool.items.length + admitted x < pool.config.maxPoolSize + Fintype.card θ

def Fits (θ : Type) [Fintype θ] (pool : FastBufferPool) : Prop :=
  pool.globalPool.items.length + Fintype.card θ < 2 ^ 64

/-- The threads that are let in or have pushed and not counted are others than one that is
about to look at the counter. -/
theorem crowd (mostly : Mostly .idle x.threads) {t : θ} {before : Pc ι}
    (stands : x.threads t = before) (out : admittedAt before + before.counting.pushing = 0)
    (pool : FastBufferPool) :
    admitted x + CountedQueue.pushing (x.queue pool) < Fintype.card θ := by
  have together := tally_add (v := fun pc : Pc ι => pc.counting.pushing) (w := admittedAt) mostly rfl rfl
  have below := tally_lt_card (f := x.threads) admittedAt_add_pushing_le (a := t)
    (by rw [stands]; exact out)
  calc admitted x + CountedQueue.pushing (x.queue pool)
      = tally (fun pc : Pc ι => admittedAt pc + pc.counting.pushing) x.threads := together.symm
    _ < Fintype.card θ := below

/-- A thread that finds the counter below the cap leaves room in the queue. -/
theorem below_of_hasRoom (tracked : x.Tracked) {pool : FastBufferPool} (here : x.pool = some pool)
    (fits : Fits θ pool) (room : pool.hasRoom = true) {t : θ} {before : Pc ι}
    (stands : x.threads t = before) (out : admittedAt before + before.counting.pushing = 0) :
    Below x pool := by
  have others := crowd tracked.mostly stands out pool
  obtain ⟨-, size_lt, congr⟩ := tracked.congruent pool here
  have pops : CountedQueue.popping (x.queue pool) ≤ Fintype.card θ :=
    tally_le_card CountedQueue.Pc.popping_le
  have size : pool.globalPool.size < pool.config.maxPoolSize := of_decide_eq_true room
  have queue : (x.queue pool).queue = pool.globalPool := rfl
  rw [queue] at congr size_lt
  unfold Fits at fits
  unfold Below
  omega

/-- What a step needs for the bound to hold on: a push of `warm` needs room, and a look at the
counter a queue that it can count. -/
def Allowed (x : Lane ι θ) : Action ι θ → Prop
  | .advance t => ∀ pool, x.pool = some pool →
    match x.threads t with
    | .warm _ (_ + 1) => Below x pool
    | .dropStore _ _ | .flush _ => Fits θ pool
    | _ => True
  | _ => True

/-- A push of `warm` that looks at the counter first, as the other pushes do. -/
def Checked (x : Lane ι θ) : Action ι θ → Prop
  | .advance t => ∀ pool, x.pool = some pool →
    match x.threads t with
    | .warm _ (_ + 1) => pool.hasRoom = true ∧ Fits θ pool
    | .dropStore _ _ | .flush _ => Fits θ pool
    | _ => True
  | _ => True

theorem checked_allowed (tracked : x.Tracked) {action : Action ι θ}
    (checked : Checked x action) : Allowed x action := by
  cases action with
  | advance t =>
    intro pool here
    have asked := checked pool here
    cases stands : x.threads t with
    | warm q left =>
      rw [stands] at asked
      cases left with
      | zero => trivial
      | succ left => exact below_of_hasRoom tracked here asked.2 asked.1 stands rfl
    | _ =>
      rw [stands] at asked
      exact asked
  | _ => trivial

def Bounded (x : Lane ι θ) : Prop := ∀ pool, x.pool = some pool →
  pool.config.minPoolSize ≤ pool.config.maxPoolSize →
    pool.globalPool.items.length + admitted x ≤ pool.config.maxPoolSize + Fintype.card θ

variable [DecidableEq θ] {p : ι} {action : Action ι θ} {got lost : Nat}

theorem works_bounded (tracked : x.Tracked) {t : θ} {before pc : Pc ι} {pool after : FastBufferPool}
    (stands : x.threads t = before) (here : x.pool = some pool) (works : Works p before pool pc after)
    (allowed : Allowed x (.advance t))
    (bounded : pool.globalPool.items.length + admitted x ≤
      pool.config.maxPoolSize + Fintype.card θ) :
    after.globalPool.items.length + admitted (x.go t pc after) ≤
      pool.config.maxPoolSize + Fintype.card θ := by
  have moved := admitted_go tracked.mostly stands pc after
  have grows := works_grows works
  have asked := allowed pool here
  rw [stands] at asked
  have room : coming pc = 0 ∨ coming pc = 1 ∧ Below x pool := by
    cases works with
    | admitDrop room | admitFlush room =>
      exact Or.inr ⟨rfl, below_of_hasRoom tracked here asked room stands rfl⟩
    | pushWarm => exact Or.inr ⟨rfl, asked⟩
    | _ => exact Or.inl rfl
  unfold Below at room
  omega

theorem quiet_admitted {before pc : Pc ι} (quiet : Quiet p before pc) :
    admittedAt pc = admittedAt before := by
  cases quiet <;> rfl

theorem bounded_step (tracked : x.Tracked) (bounded : Bounded x) (allowed : Allowed x action)
    (step : LaneStep p x action got lost y) : Bounded y := by
  intro result there sized
  cases step with
  | elsewhere => exact bounded result there sized
  | new absent length =>
    cases there
    have none : admitted x = 0 :=
      tally_zero fun t => congrArg admittedAt ((tracked.asleep absent).1 t)
    change _ + admitted x ≤ _
    simp only at sized ⊢
    omega
  | works stands here works =>
    cases there
    rw [works_config works] at sized ⊢
    exact works_bounded tracked stands here works allowed (bounded _ here sized)
  | quiet stands quiet starts =>
    exact admitted_same tracked.mostly stands (quiet_admitted quiet) (bounded result there sized)
  | acquire idle here | hit idle here | allocated idle here =>
    cases there
    have before := bounded _ here sized
    exact admitted_same tracked.mostly idle (by rfl) before
  | handed pc => exact admitted_same tracked.mostly pc (by rfl) (bounded result there sized)
  | drop idle here live =>
    cases there
    have before := bounded _ here sized
    exact admitted_same tracked.mostly idle (by rfl) before
  | lose live => exact bounded result there sized

end

section
variable {ι θ : Type}

def remaining : Pc ι → Nat
  | .warm _ left | .warmCount _ left => left
  | _ => 0

/-- A step while the thread is inside its call, in which no other thread is let in or pushes a
buffer of its own `warm`. -/
def Alone (t : θ) (x y : Lane ι θ) : Prop :=
  x.threads t ≠ .idle ∧
    ∀ other, other ≠ t → coming (y.threads other) = 1 → y.threads other = x.threads other

variable [DecidableEq θ] [Fintype θ]

def Roomy (t : θ) (x : Lane ι θ) : Prop := ∀ pool, x.pool = some pool →
  remaining (x.threads t) ≠ 0 → pool.globalPool.items.length + admitted x + remaining (x.threads t) <
    pool.config.maxPoolSize + Fintype.card θ

variable {x y : Lane ι θ} {p : ι} {t : θ} {action : Action ι θ} {got lost : Nat}

theorem own_roomy (mostly : Mostly .idle x.threads) {before pc : Pc ι}
    {pool after : FastBufferPool} (stands : x.threads t = before) (here : x.pool = some pool)
    (works : Works p before pool pc after) (roomy : Roomy t x) : Roomy t (x.go t pc after) := by
  rintro _ ⟨⟩ left
  have moved := admitted_go mostly stands pc after
  have grows := works_grows works
  have stays : (x.go t pc after).threads t = pc := Function.update_self ..
  rw [stays] at left ⊢
  have spends : remaining pc + coming pc = remaining before := by
    cases works with
    | pushWarm | countWarm => rfl
    | _ => exact absurd rfl left
  have within := roomy pool here (by rw [stands]; omega)
  rw [stands] at within
  rw [works_config works]
  omega

theorem other_roomy (mostly : Mostly .idle x.threads) {other : θ} (different : other ≠ t)
    {before pc : Pc ι} {pool after : FastBufferPool} (stands : x.threads other = before)
    (here : x.pool = some pool) (works : Works p before pool pc after)
    (still : coming pc = 1 → pc = before) (roomy : Roomy t x) : Roomy t (x.go other pc after) := by
  rintro _ ⟨⟩ left
  have moved := admitted_go mostly stands pc after
  have stays : (x.go other pc after).threads t = x.threads t := Function.update_of_ne different.symm ..
  rw [stays] at left ⊢
  have within := roomy pool here left
  have grows := works_grows works
  have none : coming pc = 0 := by
    cases works with
    | admitDrop | admitFlush | pushWarm => cases still rfl
    | _ => rfl
  rw [works_config works]
  omega

theorem aside_roomy (mostly : Mostly .idle x.threads) {other : θ} {before pc : Pc ι}
    (stands : x.threads other = before) (lets : admittedAt pc = admittedAt before)
    (own : other = t → remaining pc = 0) {pool after : FastBufferPool} (here : x.pool = some pool)
    (queue : after.globalPool = pool.globalPool) (config : after.config = pool.config)
    (roomy : Roomy t x) : Roomy t (x.go other pc after) := by
  rintro _ ⟨⟩ left
  have moved := admitted_go mostly stands pc after
  rw [lets] at moved
  by_cases same : other = t
  · subst same
    exact absurd (own rfl) (by simpa [Lane.go] using left)
  · have stays : (x.go other pc after).threads t = x.threads t :=
      Function.update_of_ne (Ne.symm same) ..
    rw [stays] at left ⊢
    rw [queue, config, Nat.add_right_cancel moved]
    exact roomy pool here left

theorem quiet_remaining {before pc : Pc ι} (quiet : Quiet p before pc) (busy : before ≠ .idle) :
    remaining pc = 0 := by
  cases quiet with
  | warm | clear | flush => exact absurd rfl busy
  | _ => rfl

theorem roomy_step (tracked : x.Tracked) (roomy : Roomy t x) (step : LaneStep p x action got lost y)
    (alone : Alone t x y) : Roomy t y := by
  obtain ⟨busy, others⟩ := alone
  cases step with
  | elsewhere => exact roomy
  | new absent length => exact absurd ((tracked.asleep absent).1 t) busy
  | @works other before pc pool after stands here works =>
    by_cases same : other = t
    · subst same
      exact own_roomy tracked.mostly stands here works roomy
    · apply other_roomy tracked.mostly same stands here works _ roomy
      intro comes
      have still := others other same
      simp only [Lane.go, Function.update_self, stands] at still
      exact still comes
  | @quiet _ other before pc stands quiet starts =>
    intro pool here left
    exact aside_roomy tracked.mostly stands (quiet_admitted quiet)
      (fun same => quiet_remaining quiet (by rw [← stands, same]; exact busy)) here rfl rfl roomy pool
      rfl left
  | acquire idle here | hit idle here | allocated idle here =>
    exact aside_roomy tracked.mostly idle (by rfl) (fun _ => rfl) here rfl rfl roomy
  | handed pc =>
    intro pool here left
    exact aside_roomy tracked.mostly pc (by rfl) (fun _ => rfl) here rfl rfl roomy pool rfl left
  | @drop other _ _ pool item idle here live =>
    have lets : admittedAt (.dropStore p item : Pc ι) = admittedAt (.idle : Pc ι) := rfl
    exact aside_roomy tracked.mostly idle lets (fun _ => rfl) here rfl rfl roomy
  | lose live => exact roomy

theorem look_roomy (tracked : x.Tracked) (idle : x.threads t = .idle) {pool : FastBufferPool}
    (here : x.pool = some pool) (fits : Fits θ pool) (target : Nat) :
    Roomy t (x.stay t (.warm p (min target pool.config.maxPoolSize - pool.globalPool.len))) := by
  intro found there left
  have same : found = pool := Option.some.inj (there.symm.trans here)
  subst same
  have moved : admitted (x.stay t (.warm p _)) + admittedAt (.idle : Pc ι) = _ :=
    calls_stay tracked.mostly rfl idle (.warm p (min target found.config.maxPoolSize -
      found.globalPool.len))
  have stays : (x.stay t (.warm p (min target found.config.maxPoolSize - found.globalPool.len))).threads
    t = .warm p (min target found.config.maxPoolSize - found.globalPool.len) := Function.update_self ..
  rw [stays] at left ⊢
  have others := crowd tracked.mostly idle rfl found
  obtain ⟨-, size_lt, congr⟩ := tracked.congruent found here
  have pops : CountedQueue.popping (x.queue found) ≤ Fintype.card θ :=
    tally_le_card CountedQueue.Pc.popping_le
  have queue : (x.queue found).queue = found.globalPool := rfl
  rw [queue] at congr size_lt
  unfold Fits at fits
  simp only [remaining, admittedAt, CountedQueue.LockFreeQueue.len, admitted] at left moved others ⊢
  omega

end

section
variable {ι θ : Type} [DecidableEq ι] [DecidableEq θ] {s : World ι θ} {p : ι}

theorem admitted_cases {pc : Pc ι} (there : admittedAt (pc.on p) ≠ 0) :
    ∃ item, pc = .dropPush p item ∨ pc = .flushPush p item := by
  unfold Pc.on at there
  split_ifs at there with same
  · cases pc with
    | dropPush q item =>
      cases same
      exact ⟨item, Or.inl rfl⟩
    | flushPush q item =>
      cases same
      exact ⟨item, Or.inr rfl⟩
    | _ => exact absurd rfl there
  · exact absurd rfl there

theorem lane_advanced (s : World ι θ) (t : θ) {pc : Pc ι} (of : pc.Of p) (after : FastBufferPool) :
    ((s.setPool p after).setPc t pc).lane p = (s.lane p).go t pc after := by
  rw [lane_setPc, lane_setPool, if_pos rfl, of.on_self]
  rfl

theorem pushed_by (tracked : (s.lane p).Tracked) {t : θ} {before after : Pc ι} {item : Item}
    {pool : FastBufferPool} (stands : s.threads t = before) (of : before.Of p) (of' : after.Of p)
    (waits : admittedAt before = 1) (done : admittedAt after = 0)
    (taken : Taken s (.advance t) ((s.setPool p (pool.enqueue item)).setPc t after)) :
    ∃ t item u, Taken s (.advance t) u ∧ u.pools p = some (pool.enqueue item) ∧
      admitted (u.lane p) + 1 = admitted (s.lane p) := by
  have moved := admitted_go tracked.mostly (lane_stands stands of) after (pool.enqueue item)
  rw [waits, done] at moved
  refine ⟨t, item, _, taken, by simp [World.setPool, World.setPc], ?_⟩
  rw [lane_advanced s t of']
  exact moved

theorem push_taken (tracked : (s.lane p).Tracked) (waiting : admitted (s.lane p) ≠ 0)
    {pool : FastBufferPool} (here : s.pools p = some pool) :
    ∃ t item u, Taken s (.advance t) u ∧ u.pools p = some (pool.enqueue item) ∧
      admitted (u.lane p) + 1 = admitted (s.lane p) := by
  obtain ⟨t, there⟩ := exists_of_tally waiting
  obtain ⟨item, pc | pc⟩ := admitted_cases there
  · have taken : Taken s (.advance t) ((s.setPool p (pool.enqueue item)).setPc t (.dropCount p)) := by
      simp [Taken, next, advance, pc, here]
    exact pushed_by tracked pc (.inr rfl) (.inr rfl) rfl rfl taken
  · have taken : Taken s (.advance t) ((s.setPool p (pool.enqueue item)).setPc t (.flushCount p)) := by
      simp [Taken, next, advance, pc, here]
    exact pushed_by tracked pc (.inr rfl) (.inr rfl) rfl rfl taken

theorem all_pushed {k : Nat} (tracked : (s.lane p).Tracked) (waiting : admitted (s.lane p) = k)
    {pool : FastBufferPool} (here : s.pools p = some pool) :
    ∃ u after, Reaches Taken s u ∧ u.pools p = some after ∧
      after.globalPool.items.length = pool.globalPool.items.length + k := by
  induction k generalizing s pool with
  | zero => exact ⟨s, pool, .refl, here, rfl⟩
  | succ k ih =>
    obtain ⟨t, item, u, taken, there, fewer⟩ := push_taken tracked (by omega) here
    have tracked' := tracked_step tracked (lane_step (step_of_taken taken) p)
    obtain ⟨v, after, run, found, length⟩ := ih tracked' (by omega) there
    refine ⟨v, after, run.head ⟨_, taken⟩, found, ?_⟩
    simp only [length, FastBufferPool.enqueue, CountedQueue.LockFreeQueue.enqueue,
      List.length_append, List.length_singleton]
    omega

variable [Fintype θ]

/-- A push of `warm` without room, and the buffers that are let in, take the queue over. -/
theorem over_pushed (tracked : (s.lane p).Tracked) {pool : FastBufferPool}
    (here : s.pools p = some pool) {t : θ} {left : Nat} (pc : s.threads t = .warm p (left + 1))
    (full : ¬ Below (s.lane p) pool) {u : World ι θ} (taken : Taken s (.advance t) u) :
    ∃ v after, Reaches Taken u v ∧ v.pools p = some after ∧
      pool.config.maxPoolSize + Fintype.card θ < after.globalPool.items.length := by
  have tracked' := tracked_step tracked (lane_step (step_of_taken taken) p)
  have stands : (s.lane p).threads t = .warm p (left + 1) := lane_stands pc (.inr rfl)
  simp only [Taken, next, advance, pc, here, Option.bind_eq_bind, Option.bind_some] at taken
  cases made : Buffer.new pool.config.bufferSize with
  | error reason => simp [made] at taken
  | ok buffer =>
    simp only [made, Option.some.injEq] at taken
    have lane : u.lane p =
        (s.lane p).go t (.warmCount p left) (pool.enqueue ⟨s.created, buffer⟩) := by
      rw [← taken]
      exact lane_advanced s t (.inr rfl) _
    have moved := admitted_go tracked.mostly stands (.warmCount p left)
      (pool.enqueue ⟨s.created, buffer⟩)
    have there : u.pools p = some (pool.enqueue ⟨s.created, buffer⟩) := congrArg Lane.pool lane
    obtain ⟨v, after, run, found, length⟩ := all_pushed tracked' rfl there
    refine ⟨v, after, run, found, ?_⟩
    unfold Below at full
    simp only [admittedAt] at moved
    rw [length, lane]
    simp only [FastBufferPool.enqueue, CountedQueue.LockFreeQueue.enqueue,
      List.length_append, List.length_singleton] at moved ⊢
    omega

theorem checked_run
    (run : Reaches (Guarded (fun s action => Checked (s.lane p) action) Taken) World.empty s) :
    Reaches (Guarded (fun s action => Allowed (s.lane p) action) Taken) World.empty s := by
  induction run with
  | refl => exact .refl
  | tail before move ih =>
    obtain ⟨action, checked, taken⟩ := move
    have tracked := tracked_run (Reaches.of_steps before fun _ _ _ step => step.2) p
    exact ih.tail ⟨action, checked_allowed tracked checked, taken⟩

theorem bounded_run
    (run : Reaches (Guarded (fun s action => Allowed (s.lane p) action) Taken) World.empty s) :
    Bounded (s.lane p) := by
  have both : (s.lane p).Tracked ∧ Bounded (s.lane p) := by
    apply run.keeps (I := fun u => (u.lane p).Tracked ∧ Bounded (u.lane p))
      ⟨tracked_empty p, fun _ there => nomatch there⟩
    rintro u action v ⟨tracked, bounded⟩ ⟨allowed, taken⟩
    have step := lane_step (step_of_taken taken) p
    exact ⟨tracked_step tracked step, bounded_step tracked bounded allowed step⟩
  exact both.2

/-- With that look in `warm` the queue would keep to the bound. -/
theorem checked_bounded
    (run : Reaches (Guarded (fun s action => Checked (s.lane p) action) Taken) World.empty s)
    {pool : FastBufferPool} (here : s.pools p = some pool)
    (sized : pool.config.minPoolSize ≤ pool.config.maxPoolSize) :
    pool.globalPool.items.length ≤ pool.config.maxPoolSize + Fintype.card θ :=
  (Nat.le_add_right _ _).trans (bounded_run (checked_run run) pool here sized)

/-- A call of `warm` finds room for every push, where from its look at the counter to its end no
other thread is let in or pushes a buffer of its own `warm`. -/
theorem alone_below {v u : World ι θ} (run : Reaches Taken World.empty s) {pool : FastBufferPool}
    (here : s.pools p = some pool) (fits : Fits θ pool) {t : θ} {target : Nat}
    (look : Taken s (.warm t p target) v)
    (alone : Reaches (fun s action u => Taken s action u ∧ Alone t (s.lane p) (u.lane p)) v u)
    {left : Nat} (pc : u.threads t = .warm p (left + 1)) {after : FastBufferPool}
    (there : u.pools p = some after) : Below (u.lane p) after := by
  have tracked := tracked_run run p
  have first : Roomy t (v.lane p) := by
    simp only [Taken, next, Option.bind_eq_bind] at look
    split_ifs at look with idle
    rw [here, Option.bind_some, Option.some.injEq] at look
    rw [← look, lane_setPc, Pc.Of.on_self (.inr rfl)]
    exact look_roomy tracked (lane_stands idle (.inl rfl)) here fits target
  have both : (u.lane p).Tracked ∧ Roomy t (u.lane p) := by
    apply alone.keeps (I := fun u => (u.lane p).Tracked ∧ Roomy t (u.lane p))
      ⟨tracked_step tracked (lane_step (step_of_taken look) p), first⟩
    rintro u action w ⟨tracked, roomy⟩ ⟨taken, alone⟩
    have step := lane_step (step_of_taken taken) p
    exact ⟨tracked_step tracked step, roomy_step tracked roomy step alone⟩
  have stands : (u.lane p).threads t = .warm p (left + 1) := lane_stands pc (.inr rfl)
  have room := both.2 after there
  rw [stands] at room
  exact lt_of_le_of_lt (Nat.le_add_right _ _) (room (Nat.succ_ne_zero left))

/-- In every run whose pushes of `warm` find room, the global queue holds at most a buffer for
each thread more than `max_pool_size`. A push made while the counter is below the cap finds room;
after one that does not, some run of the same threads takes the queue over the bound. -/
theorem queue_bounded
    (run : Reaches (Guarded (fun s action => Allowed (s.lane p) action) Taken) World.empty s)
    {pool : FastBufferPool} (here : s.pools p = some pool)
    (sized : pool.config.minPoolSize ≤ pool.config.maxPoolSize) :
    pool.globalPool.items.length ≤ pool.config.maxPoolSize + Fintype.card θ ∧
    ∀ t left, s.threads t = .warm p (left + 1) →
      (pool.hasRoom = true → Fits θ pool → Below (s.lane p) pool) ∧
      ∀ u, Taken s (.advance t) u → ¬ Below (s.lane p) pool →
        ∃ v after, Reaches Taken u v ∧ v.pools p = some after ∧
          pool.config.maxPoolSize + Fintype.card θ < after.globalPool.items.length := by
  have tracked : (s.lane p).Tracked :=
    tracked_run (run.of_steps fun _ _ _ taken => taken.2) p
  have within := bounded_run run pool here sized
  refine ⟨by omega, fun t left pc => ⟨fun room fits => ?_, fun u taken full => ?_⟩⟩
  · exact below_of_hasRoom tracked here fits room (lane_stands pc (.inr rfl)) rfl
  · exact over_pushed tracked here pc full taken

theorem queue_bounded_two :
    ∃ s : World Unit Bool, ∃ pool,
      exec next World.empty [.new () ⟨8, 1, 0⟩, .warm false () 1, .warm true () 1, .advance false,
        .advance true] = some s ∧
      s.pools () = some pool ∧ pool.globalPool.items.length = 2 ∧
      pool.globalPool.items.length ≤ pool.config.maxPoolSize + Fintype.card Bool := by
  obtain ⟨s, pool, script, here, two, config⟩ : ∃ s : World Unit Bool, ∃ pool,
      exec next World.empty [.new () ⟨8, 1, 0⟩, .warm false () 1, .warm true () 1, .advance false,
        .advance true] = some s ∧
      s.pools () = some pool ∧ pool.globalPool.items.length = 2 ∧ pool.config = ⟨8, 1, 0⟩ :=
    ⟨_, _, rfl, rfl, rfl, rfl⟩
  have meets : Meets next (fun s action => Allowed (s.lane ()) action) (World.empty : World Unit Bool)
      [.new () ⟨8, 1, 0⟩, .warm false () 1, .warm true () 1, .advance false, .advance true] := by
    refine ⟨trivial, trivial, trivial, ?_, ?_, trivial⟩
    · rintro _ ⟨⟩
      change 0 + admitted _ < 1 + Fintype.card Bool
      rw [admitted, tally_zero (by decide)]
      decide
    · rintro _ ⟨⟩
      change 1 + admitted _ < 1 + Fintype.card Bool
      rw [admitted, tally_zero (by decide)]
      decide
  exact ⟨s, pool, script, here, two,
    (queue_bounded (.of_script script meets) here (by rw [config]; decide)).1⟩

/-- Two threads that each fill an empty pool of three: six buffers, where the cap with a buffer
for each thread is five. -/
theorem warm_overshoots :
    ∃ s : World Unit Bool, ∃ pool,
      exec next World.empty ([.new () ⟨8, 3, 0⟩, .warm false () 3, .warm true () 3] ++
        List.replicate 6 (.advance false) ++ List.replicate 6 (.advance true)) = some s ∧
      s.pools () = some pool ∧ pool.config.minPoolSize ≤ pool.config.maxPoolSize ∧
      pool.globalPool.items.length = 6 ∧
      ¬ pool.globalPool.items.length ≤ pool.config.maxPoolSize + Fintype.card Bool :=
  ⟨_, _, rfl, rfl, by decide, rfl, by decide⟩

end

end Secbuf.QueueBound
