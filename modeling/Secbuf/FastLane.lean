import Secbuf.FastSteps
import Secbuf.Tally

/-! One lock-free pool among many: the pool, the calls that are on it, and the number of its
handles. Every step of the whole system is a step of this smaller one, or leaves it as it is. -/

namespace Secbuf.FastPool
open Calls Storage BufferCore BufferScript Custody Tally

section
variable {ι θ : Type}

def Pc.pool? : Pc ι → Option ι
  | .idle => none
  | .acquireCache p | .acquirePopped p _ | .acquireEmpty p | .acquireDone p _ | .dropStore p _
  | .dropPush p _ | .dropCount p | .warm p _ | .warmCount p _ | .clear p | .clearCount p _ | .flush p
  | .flushPush p _ | .flushCount p => some p

/-- A pool that may not have been made yet, the calls on it, and how many of its handles are
out. -/
structure Lane (ι θ : Type) where
  pool : Option FastBufferPool
  threads : θ → Pc ι
  live : Nat

def Lane.go [DecidableEq θ] (x : Lane ι θ) (t : θ) (pc : Pc ι) (after : FastBufferPool) : Lane ι θ :=
  ⟨some after, Function.update x.threads t pc, x.live⟩

def Lane.stay [DecidableEq θ] (x : Lane ι θ) (t : θ) (pc : Pc ι) : Lane ι θ :=
  { x with threads := Function.update x.threads t pc }

/-- The steps on the queue and on its counter, by the points of the calls they lie between. -/
inductive Works (p : ι) : Pc ι → FastBufferPool → Pc ι → FastBufferPool → Prop
  | admitDrop {pool : FastBufferPool} {item : Item} (room : pool.hasRoom = true) :
      Works p (.dropStore p item) pool (.dropPush p item) pool
  | admitFlush {pool : FastBufferPool} {item : Item} (room : pool.hasRoom = true) :
      Works p (.flush p) pool (.flushPush p item) pool
  | pushDrop {pool : FastBufferPool} {item : Item} :
      Works p (.dropPush p item) pool (.dropCount p) (pool.enqueue item)
  | pushFlush {pool : FastBufferPool} {item : Item} :
      Works p (.flushPush p item) pool (.flushCount p) (pool.enqueue item)
  | pushWarm {pool : FastBufferPool} {left : Nat} {item : Item} :
      Works p (.warm p (left + 1)) pool (.warmCount p left) (pool.enqueue item)
  | countDrop {pool : FastBufferPool} : Works p (.dropCount p) pool .idle pool.countUp
  | countFlush {pool : FastBufferPool} : Works p (.flushCount p) pool (.flush p) pool.countUp
  | countWarm {pool : FastBufferPool} {left : Nat} :
      Works p (.warmCount p left) pool (.warm p left) pool.countUp
  | popAcquire {pool : FastBufferPool} {item : Item} {rest : List Item}
      (items : pool.globalPool.items = item :: rest) :
      Works p (.acquireCache p) pool (.acquirePopped p item) (pool.dequeue rest)
  | popClear {pool : FastBufferPool} {item : Item} {rest : List Item}
      (items : pool.globalPool.items = item :: rest) :
      Works p (.clear p) pool (.clearCount p item) (pool.dequeue rest)
  | countAcquire {pool : FastBufferPool} {item : Item} :
      Works p (.acquirePopped p item) pool (.acquireDone p item) pool.countDown
  | countClear {pool : FastBufferPool} {item : Item} :
      Works p (.clearCount p item) pool (.clear p) pool.countDown

theorem works_config {p : ι} {before pc : Pc ι} {pool after : FastBufferPool}
    (works : Works p before pool pc after) : after.config = pool.config := by
  cases works <;> rfl

inductive Quiet (p : ι) : Pc ι → Pc ι → Prop
  | acquireMiss : Quiet p (.acquireCache p) (.acquireEmpty p)
  | dropEnd {item : Item} : Quiet p (.dropStore p item) .idle
  | warm {left : Nat} : Quiet p .idle (.warm p left)
  | warmEnd : Quiet p (.warm p 0) .idle
  | clear : Quiet p .idle (.clear p)
  | clearEnd : Quiet p (.clear p) .idle
  | flush : Quiet p .idle (.flush p)
  | flushEnd : Quiet p (.flush p) .idle

variable [DecidableEq θ]

/-- A step as one pool sees it; the numbers count the calls of `acquire` and the handles lost
without being returned. -/
inductive LaneStep (p : ι) (x : Lane ι θ) : Action ι θ → Nat → Nat → Lane ι θ → Prop
  | elsewhere {action : Action ι θ} : LaneStep p x action 0 0 x
  | new {config : PoolConfig} {items : List Item} (absent : x.pool = none)
      (length : items.length = config.minPoolSize) :
      LaneStep p x (.new p config) 0 0
        { x with pool := some ⟨⟨items, config.minPoolSize % 2 ^ 64⟩, config, ⟨0, 0, 0, 0⟩⟩ }
  | works {t : θ} {before pc : Pc ι} {pool after : FastBufferPool} (stands : x.threads t = before)
      (here : x.pool = some pool) (works : Works p before pool pc after) :
      LaneStep p x (.advance t) 0 0 (x.go t pc after)
  | quiet {action : Action ι θ} {t : θ} {before pc : Pc ι} (stands : x.threads t = before)
      (quiet : Quiet p before pc) (starts : x.pool = none → before ≠ .idle) :
      LaneStep p x action 0 0 (x.stay t pc)
  | acquire {t : θ} {pool : FastBufferPool} (idle : x.threads t = .idle) (here : x.pool = some pool) :
      LaneStep p x (.acquire t p) 1 0 (x.go t (.acquireCache p) pool.countAcquired)
  | hit {t : θ} {pool : FastBufferPool} {item : Item} (pc : x.threads t = .acquireCache p)
      (here : x.pool = some pool) :
      LaneStep p x (.advance t) 0 0 (x.go t (.acquireDone p item) pool.countHit)
  | allocated {t : θ} {pool : FastBufferPool} {item : Item} (pc : x.threads t = .acquireEmpty p)
      (here : x.pool = some pool) :
      LaneStep p x (.advance t) 0 0 (x.go t (.acquireDone p item) pool.countAllocated)
  | handed {t : θ} {item : Item} (pc : x.threads t = .acquireDone p item) :
      LaneStep p x (.advance t) 0 0 { x.stay t .idle with live := x.live + 1 }
  | drop {t : θ} {i n : Nat} {pool : FastBufferPool} {item : Item} (idle : x.threads t = .idle)
      (here : x.pool = some pool) (live : x.live = n + 1) :
      LaneStep p x (.drop t i) 0 0 { x.go t (.dropStore p item) pool.countReturned with live := n }
  | lose {action : Action ι θ} {n : Nat} (live : x.live = n + 1) :
      LaneStep p x action 0 1 { x with live := n }

end

section
variable {ι θ : Type} [DecidableEq ι]

/-- The call as one pool sees it: nothing where it is on another pool. -/
def Pc.on (p : ι) (pc : Pc ι) : Pc ι := if pc.pool? = some p then pc else .idle

def live (p : ι) (s : World ι θ) : Nat := s.held.countP fun handle => handle.pool = p

def World.lane (s : World ι θ) (p : ι) : Lane ι θ :=
  ⟨s.pools p, fun t => (s.threads t).on p, live p s⟩

def gets (p : ι) : Action ι θ → Nat
  | .acquire _ q => if q = p then 1 else 0
  | _ => 0

def lost (p : ι) (s : World ι θ) : Action ι θ → Nat
  | .dropNow i | .leak i => if s.held[i]?.any fun handle => handle.pool = p then 1 else 0
  | _ => 0

theorem eq_of_on {p : ι} {pc seen : Pc ι} (on : pc.on p = seen) (busy : seen ≠ .idle) :
    pc = seen := by
  unfold Pc.on at on
  split_ifs at on
  · exact on
  · exact absurd on.symm busy

variable {s u : World ι θ} {p : ι}

theorem live_cons (p : ι) (handle : FastHandle ι) (held : List (FastHandle ι)) :
    (handle :: held).countP (fun handle => handle.pool = p) =
      held.countP (fun handle => handle.pool = p) + if handle.pool = p then 1 else 0 := by
  simp [List.countP_cons]

theorem live_eraseIdx {i : Nat} {handle : FastHandle ι} (here : s.held[i]? = some handle) (p : ι) :
    (s.held.eraseIdx i).countP (fun handle => handle.pool = p) +
      (if handle.pool = p then 1 else 0) = live p s := by
  simpa [live] using countP_eraseIdx (fun handle : FastHandle ι => decide (handle.pool = p)) here

theorem lane_held (s : World ι θ) (p : ι) (held : List (FastHandle ι)) :
    { s with held := held }.lane p =
      { s.lane p with live := held.countP fun handle => handle.pool = p } := rfl

variable [DecidableEq θ]

def Pc.Of (q : ι) (pc : Pc ι) : Prop := pc.pool? = none ∨ pc.pool? = some q

theorem Pc.Of.on_self {pc : Pc ι} (of : pc.Of p) : pc.on p = pc := by
  rcases of with idle | there
  · cases pc <;> first | rfl | cases idle
  · exact if_pos there

theorem Pc.Of.on_other {q : ι} {pc : Pc ι} (of : pc.Of q) (different : q ≠ p) :
    pc.on p = .idle := by
  refine if_neg fun there => ?_
  rcases of with idle | other
  · exact absurd (idle.symm.trans there) (Option.some_ne_none p).symm
  · exact different (Option.some.inj (other.symm.trans there))

theorem lane_setPc (s : World ι θ) (p : ι) (t : θ) (pc : Pc ι) :
    (s.setPc t pc).lane p = (s.lane p).stay t (pc.on p) := by
  have threads : (fun other => (Function.update s.threads t pc other).on p) =
      Function.update (fun other => (s.threads other).on p) t (pc.on p) := by
    funext other
    by_cases same : other = t
    · rw [same, Function.update_self, Function.update_self]
    · rw [Function.update_of_ne same, Function.update_of_ne same]
  simp only [World.lane, World.setPc, Lane.stay, live, threads]

omit [DecidableEq θ] in
theorem lane_setPool (s : World ι θ) (p q : ι) (after : FastBufferPool) :
    (s.setPool q after).lane p =
      if q = p then { s.lane p with pool := some after } else s.lane p := by
  split_ifs with same
  · subst same
    simp [World.lane, World.setPool, live]
  · simp [World.lane, World.setPool, live, Function.update_of_ne (Ne.symm same)]

omit [DecidableEq θ] in
theorem lane_stands {t : θ} {pc : Pc ι} (stands : s.threads t = pc) (of : pc.Of p) :
    (s.lane p).threads t = pc :=
  (congrArg (Pc.on p) stands).trans of.on_self

theorem stay_other {q : ι} {t : θ} {before pc : Pc ι} (different : q ≠ p)
    (stands : s.threads t = before) (of : before.Of q) (of' : pc.Of q) :
    (s.lane p).stay t (pc.on p) = s.lane p := by
  have still : (s.lane p).threads t = .idle :=
    (congrArg (Pc.on p) stands).trans (of.on_other different)
  rw [of'.on_other different, Lane.stay, ← still, Function.update_eq_self]

theorem lane_go {q : ι} {t : θ} {before pc : Pc ι} {after : FastBufferPool} {action : Action ι θ}
    (stands : s.threads t = before) (of : before.Of q) (of' : pc.Of q)
    (step : q = p → (s.lane p).threads t = before →
      LaneStep p (s.lane p) action 0 0 ((s.lane p).go t pc after)) :
    LaneStep p (s.lane p) action 0 0 (((s.setPool q after).setPc t pc).lane p) := by
  rw [lane_setPc, lane_setPool]
  by_cases same : q = p
  · subst same
    rw [if_pos rfl, of'.on_self]
    exact step rfl (lane_stands stands of)
  · rw [if_neg same, stay_other same stands of of']
    exact .elsewhere

theorem lane_stay {q : ι} {t : θ} {before pc : Pc ι} {action : Action ι θ}
    (stands : s.threads t = before) (of : before.Of q) (of' : pc.Of q)
    (step : q = p → (s.lane p).threads t = before →
      LaneStep p (s.lane p) action 0 0 ((s.lane p).stay t pc)) :
    LaneStep p (s.lane p) action 0 0 ((s.setPc t pc).lane p) := by
  rw [lane_setPc]
  by_cases same : q = p
  · subst same
    rw [of'.on_self]
    exact step rfl (lane_stands stands of)
  · rw [stay_other same stands of of']
    exact .elsewhere

theorem lane_lose {i : Nat} {handle : FastHandle ι} {action : Action ι θ}
    (found : s.held[i]? = some handle)
    (counts : lost p s action = if s.held[i]?.any fun handle => handle.pool = p then 1 else 0) :
    LaneStep p (s.lane p) action 0 (lost p s action)
      ({ s with held := s.held.eraseIdx i }.lane p) := by
  have left := live_eraseIdx found p
  rw [counts, found, Option.any_some]
  by_cases same : handle.pool = p
  · rw [if_pos (by simpa using same)]
    rw [if_pos same] at left
    exact .lose left.symm
  · rw [if_neg (by simpa using same)]
    rw [if_neg same, Nat.add_zero] at left
    have still : { s with held := s.held.eraseIdx i }.lane p = s.lane p := by
      simp only [World.lane, live] at left ⊢
      rw [left]
    rw [still]
    exact .elsewhere

omit [DecidableEq θ] in
theorem lane_set {i : Nat} {handle : FastHandle ι} (found : s.held[i]? = some handle) (b : Buffer) :
    { s with held := s.held.set i (handle.withBuffer b) }.lane p = s.lane p := by
  have count := countP_set_same (fun handle : FastHandle ι => decide (handle.pool = p)) found
    (show _ = decide ((handle.withBuffer b).pool = p) from rfl).symm
  simp only [World.lane, live, count]

omit [DecidableEq ι] [DecidableEq θ] in
theorem exists_before {found : Option FastBufferPool} {pool : FastBufferPool}
    (here : found = some pool) {pc : Pc ι} (absent : found = none) : pc ≠ .idle :=
  absurd (here.symm.trans absent) (Option.some_ne_none pool)

omit [DecidableEq ι] in
theorem stay_eq_go {x : Lane ι θ} {pool : FastBufferPool} (here : x.pool = some pool) (t : θ)
    (pc : Pc ι) : x.stay t pc = x.go t pc pool := by
  simp only [Lane.stay, Lane.go, here]

omit [DecidableEq ι] [DecidableEq θ] in
theorem works_of {q : ι} {before pc : Pc ι} {pool after : FastBufferPool}
    (works : Works q before pool pc after) : before.Of q ∧ pc.Of q := by
  cases works <;> exact ⟨by simp [Pc.Of, Pc.pool?], by simp [Pc.Of, Pc.pool?]⟩

omit [DecidableEq ι] [DecidableEq θ] in
theorem quiet_of {q : ι} {before pc : Pc ι} (quiet : Quiet q before pc) : before.Of q ∧ pc.Of q := by
  cases quiet <;> exact ⟨by simp [Pc.Of, Pc.pool?], by simp [Pc.Of, Pc.pool?]⟩

theorem lane_works {q : ι} {t : θ} {before pc : Pc ι} {pool after : FastBufferPool}
    (stands : s.threads t = before) (here : s.pools q = some pool)
    (works : Works q before pool pc after) :
    LaneStep p (s.lane p) (.advance t) 0 0 (((s.setPool q after).setPc t pc).lane p) := by
  obtain ⟨of, of'⟩ := works_of works
  refine lane_go stands of of' fun same there => ?_
  subst same
  exact .works there here works

theorem lane_quiet {q : ι} {t : θ} {before pc : Pc ι} {action : Action ι θ}
    (stands : s.threads t = before) (quiet : Quiet q before pc)
    (starts : s.pools q = none → before ≠ .idle) :
    LaneStep p (s.lane p) action 0 0 ((s.setPc t pc).lane p) := by
  obtain ⟨of, of'⟩ := quiet_of quiet
  refine lane_stay stands of of' fun same there => ?_
  subst same
  exact .quiet there quiet starts

theorem lane_admit {q : ι} {t : θ} {before pc : Pc ι} {pool : FastBufferPool}
    (stands : s.threads t = before) (here : s.pools q = some pool)
    (works : Works q before pool pc pool) :
    LaneStep p (s.lane p) (.advance t) 0 0 ((s.setPc t pc).lane p) := by
  obtain ⟨of, of'⟩ := works_of works
  refine lane_stay stands of of' fun same there => ?_
  subst same
  rw [stay_eq_go here]
  exact .works there here works

/-- Every step of the system, as any pool sees it. -/
theorem lane_step {action : Action ι θ} (step : Step s action u) (p : ι) :
    LaneStep p (s.lane p) action (gets p action) (lost p s action) (u.lane p) := by
  cases step with
  | new absent made =>
    rename_i q config items
    change LaneStep p (s.lane p) _ 0 0 ((s.setPool q _).lane p)
    rw [lane_setPool]
    split_ifs with same
    · subst same
      exact .new absent (freshItems_length made)
    · exact .elsewhere
  | acquire idle alive here =>
    rename_i t q pool
    rw [lane_setPc, lane_setPool, gets]
    by_cases same : q = p
    · subst same
      rw [if_pos rfl, if_pos rfl, Pc.Of.on_self (.inr rfl)]
      exact .acquire (lane_stands idle (.inl rfl)) here
    · rw [if_neg same, if_neg same, stay_other same idle (.inl rfl) (.inr rfl)]
      exact .elsewhere
  | hit pc here top =>
    exact lane_go pc (.inr rfl) (.inr rfl) (by rintro rfl stands; exact .hit stands here)
  | acquirePop pc here empty items => exact lane_works pc here (.popAcquire items)
  | acquireMiss pc here empty items => exact lane_quiet pc .acquireMiss (by simp)
  | acquireCounted pc here => exact lane_works pc here .countAcquire
  | allocated pc here made =>
    exact lane_go pc (.inr rfl) (.inr rfl) (by rintro rfl stands; exact .allocated stands here)
  | handed pc =>
    rename_i t q item
    have count := live_cons p ⟨q, item⟩ s.held
    rw [lane_held (s.setPc t .idle), lane_setPc, count]
    by_cases same : q = p
    · subst same
      rw [if_pos rfl]
      exact .handed (lane_stands pc (.inr rfl))
    · rw [if_neg same, stay_other same pc (.inr rfl) (.inl rfl)]
      exact .elsewhere
  | drop idle found here =>
    rename_i t i handle pool
    have left := live_eraseIdx found p
    rw [lane_held (World.setPc _ t _), lane_setPc, lane_setPool]
    by_cases same : handle.pool = p
    · subst same
      rw [if_pos rfl] at left ⊢
      rw [Pc.Of.on_self (.inr rfl)]
      exact .drop (lane_stands idle (.inl rfl)) here left.symm
    · rw [if_neg same] at left ⊢
      rw [stay_other same idle (.inl rfl) (.inr rfl)]
      rw [Nat.add_zero] at left
      rw [left]
      exact .elsewhere
  | stored pc space => exact lane_quiet pc .dropEnd (by simp)
  | dropAdmitted pc here full room => exact lane_admit pc here (.admitDrop room)
  | dropRefused pc here full noRoom => exact lane_quiet pc .dropEnd (by simp)
  | dropPushed pc here => exact lane_works pc here .pushDrop
  | dropCounted pc here => exact lane_works pc here .countDrop
  | dropNow found => exact lane_lose found rfl
  | leak found => exact lane_lose found rfl
  | warm idle here => exact lane_quiet idle .warm (exists_before here)
  | warmEnd pc => exact lane_quiet pc .warmEnd (by simp)
  | warmPushed pc here made => exact lane_works pc here .pushWarm
  | warmCounted pc here => exact lane_works pc here .countWarm
  | clear idle here => exact lane_quiet idle .clear (exists_before here)
  | clearPop pc here items => exact lane_works pc here (.popClear items)
  | clearEnd pc here items => exact lane_quiet pc .clearEnd (by simp)
  | clearCounted pc here => exact lane_works pc here .countClear
  | flush idle alive here => exact lane_quiet idle .flush (exists_before here)
  | flushEnd pc empty => exact lane_quiet pc .flushEnd (by simp)
  | flushAdmitted pc here room top => exact lane_admit pc here (.admitFlush room)
  | flushRefused pc here noRoom top => exact .elsewhere
  | flushPushed pc here => exact lane_works pc here .pushFlush
  | flushCounted pc here => exact lane_works pc here .countFlush
  | exit idle => exact .elsewhere
  | use found stepped =>
    rw [lane_set found]
    exact .elsewhere
  | replace found =>
    rw [lane_set found]
    exact .elsewhere

end

end Secbuf.FastPool
