import Secbuf.FastLedger
import Secbuf.FastProgress

/-! Shutting lock-free pools down. First every thread empties its cache, by `clear_thread_cache` or
by its end, then the pools are cleared. In between nothing is put back, but for what the caches
hand to the queues. -/

namespace Secbuf.FastShutdown
open Calls Storage BufferCore Custody Tally FastPool
open FastProgress (actor frame_step clearing queued fills queued_step)

section
variable {ι θ : Type}

/-- Nothing is made ready and no handle dropped. -/
def Closes : Action ι θ → Prop
  | .new _ _ | .drop _ _ | .warm _ _ _ => False
  | _ => True

def Still (s : World ι θ) : Prop := ∀ t, s.threads t = .idle

def storing : Pc ι → Bool
  | .dropStore _ _ | .dropPush _ _ | .dropCount _ | .warm _ _ | .warmCount _ _ => true
  | _ => false

def flushing : Pc ι → Bool
  | .flush _ | .flushPush _ _ | .flushCount _ => true
  | _ => false

/-- The thread's cache is empty, or is being emptied. -/
def Parting (t : θ) (s : World ι θ) : Prop := s.caches t = [] ∨ flushing (s.threads t) = true

/-- No cache has anything, and nothing is on its way to a queue. -/
structure Drained (s : World ι θ) : Prop where
  caches : ∀ t, s.caches t = []
  storing : ∀ t, storing (s.threads t) = false
  pushing : ∀ t p item, s.threads t ≠ .flushPush p item

variable [DecidableEq ι] [DecidableEq θ] {s u : World ι θ} {action : Action ι θ} {t : θ}

omit [DecidableEq ι] [DecidableEq θ] in
theorem quiet_at (quiet : ∀ t, storing (s.threads t) = false) {pc : Pc ι} (stands : s.threads t = pc)
    (stores : storing pc = true) : False := by
  have none := quiet t
  rw [stands, stores] at none
  cases none

theorem storing_step (closes : Closes action) (quiet : ∀ t, storing (s.threads t) = false)
    (taken : Taken s action u) : ∀ t, storing (u.threads t) = false := by
  have moved (t' : θ) (pc : Pc ι) (other : storing pc = false) (t : θ) :
      storing (Function.update s.threads t' pc t) = false := by
    by_cases same : t = t'
    · rw [same, Function.update_self]
      exact other
    · rw [Function.update_of_ne same]
      exact quiet t
  cases step_of_taken taken with
  | new absent made => exact closes.elim
  | drop idle found here => exact closes.elim
  | warm idle here => exact closes.elim
  | stored pc | dropAdmitted pc | dropRefused pc | dropPushed pc | dropCounted pc | warmEnd pc
  | warmPushed pc | warmCounted pc => exact (quiet_at quiet pc rfl).elim
  | dropNow | leak | exit | use | replace | flushRefused => exact quiet
  | _ => exact moved _ _ rfl

theorem parting_step (closes : Closes action) (quiet : ∀ t, storing (s.threads t) = false)
    (parting : Parting t s) (taken : Taken s action u) : Parting t u := by
  have step := step_of_taken taken
  by_cases mine : actor action = some t
  · have empty {pc : Pc ι} (stands : s.threads t = pc) (other : flushing pc = false) : s.caches t = [] := by
      apply parting.resolve_right
      rw [stands, other]
      exact Bool.false_ne_true
    cases step with
    | new absent made => exact closes.elim
    | drop idle found here => exact closes.elim
    | warm idle here => exact closes.elim
    | dropNow | leak | use | replace => cases mine
    | stored pc | dropAdmitted pc | dropRefused pc | dropPushed pc | dropCounted pc | warmEnd pc
    | warmPushed pc | warmCounted pc => exact (quiet_at quiet pc rfl).elim
    | acquire pc | acquirePop pc | acquireMiss pc | acquireCounted pc | allocated pc | handed pc | clear pc
    | clearPop pc | clearEnd pc | clearCounted pc =>
      cases mine
      exact Or.inl (empty pc rfl)
    | hit pc here top =>
      cases mine
      rw [empty pc rfl] at top
      cases top
    | flushEnd pc top =>
      cases mine
      exact Or.inl (List.getLast?_eq_none_iff.mp top)
    | exit idle =>
      cases mine
      exact Or.inl (Function.update_self _ _ _)
    | flushRefused pc =>
      cases mine
      exact Or.inr (congrArg flushing pc)
    | flush | flushAdmitted | flushPushed | flushCounted =>
      cases mine
      right
      simp [World.setPc, flushing]
  · obtain ⟨threads, caches⟩ := frame_step step mine
    rw [Parting, threads, caches]
    exact parting

theorem drained_step (closes : Closes action) (drained : Drained s) (taken : Taken s action u) :
    Drained u := by
  have top {t : θ} {item : Item} (found : (s.caches t).getLast? = some item) : False := by
    rw [drained.caches t] at found
    cases found
  have emptied (t' : θ) (t : θ) : Function.update s.caches t' [] t = [] := by
    by_cases same : t = t'
    · rw [same, Function.update_self]
    · rw [Function.update_of_ne same]
      exact drained.caches t
  have moved (t' : θ) (pc : Pc ι) (other : ∀ p item, pc ≠ .flushPush p item) (t : θ) (p : ι) (item : Item) :
      Function.update s.threads t' pc t ≠ .flushPush p item := by
    by_cases same : t = t'
    · rw [same, Function.update_self]
      exact other p item
    · rw [Function.update_of_ne same]
      exact drained.pushing t p item
  have quiet := storing_step closes drained.storing taken
  cases step_of_taken taken with
  | new absent made => exact closes.elim
  | drop idle found here => exact closes.elim
  | warm idle here => exact closes.elim
  | stored pc | dropAdmitted pc | dropRefused pc | dropPushed pc | dropCounted pc | warmEnd pc
  | warmPushed pc | warmCounted pc => exact (quiet_at drained.storing pc rfl).elim
  | hit pc here found => exact (top found).elim
  | flushAdmitted pc here room found => exact (top found).elim
  | flushRefused pc here noRoom found => exact (top found).elim
  | dropNow | leak | use | replace => exact ⟨drained.caches, quiet, drained.pushing⟩
  | exit idle => exact ⟨emptied _, quiet, drained.pushing⟩
  | _ => exact ⟨drained.caches, quiet, moved _ _ (fun _ _ => by simp)⟩

omit [DecidableEq θ] in
theorem fills_zero (drained : Drained s) (p : ι) (action : Action ι θ) : fills (s.lane p) action = 0 := by
  cases action with
  | advance t =>
    have storing := drained.storing t
    have pushing := drained.pushing t
    simp only [fills, World.lane, Pc.on]
    split_ifs
    · cases stands : s.threads t <;> simp_all [FastShutdown.storing]
    · rfl
  | _ => rfl

structure Cleared (p : ι) (s : World ι θ) : Prop where
  made : s.pools p ≠ none
  emptied : queued (s.lane p) = 0 ∨ ∃ t, clearing (s.threads t) = some p

theorem cleared_step {p : ι} (drained : Drained s) (cleared : Cleared p s) (taken : Taken s action u) :
    Cleared p u := by
  have step := step_of_taken taken
  have shrinks : queued (u.lane p) ≤ queued (s.lane p) := by
    have grown := queued_step (lane_step step p) cleared.made
    rwa [fills_zero drained] at grown
  have stays : u.pools p ≠ none := by
    obtain ⟨pool, here⟩ := Option.ne_none_iff_exists'.mp cleared.made
    obtain ⟨after, there, -⟩ := config_lane (lane_step step p) here
    intro absent
    exact Option.some_ne_none after (there.symm.trans absent)
  apply Cleared.mk stays
  rcases cleared.emptied with empty | ⟨t, clears⟩
  · left
    omega
  · by_cases mine : actor action = some t
    · cases step with
      | new | dropNow | leak | use | replace => cases mine
      | clearPop pc here items =>
        cases mine
        right
        exact ⟨t, by simpa [World.setPc, clearing, pc] using clears⟩
      | clearCounted pc here =>
        cases mine
        right
        exact ⟨t, by simpa [World.setPc, World.destroy, clearing, pc] using clears⟩
      | clearEnd pc here items =>
        cases mine
        rw [pc] at clears
        cases clears
        left
        rw [FastProgress.queued_some (x := (s.setPc t .idle).lane p) here, items, List.length_nil]
      | _ =>
        cases mine
        simp_all [clearing]
    · right
      exact ⟨t, (frame_step step mine).1 ▸ clears⟩

variable {actions : List (Action ι θ)}

/-- A thread that has emptied its cache, or never had anything in it, has nothing in it once all
calls are over. -/
theorem caches_emptied (still : Still s) (script : exec next s actions = some u)
    (closes : ∀ action ∈ actions, Closes action)
    (parts : s.caches t ≠ [] → (∃ p, .clearThreadCache t p ∈ actions) ∨ .exit t ∈ actions)
    (over' : u.threads t = .idle) : u.caches t = [] := by
  have quiet (t : θ) : storing (s.threads t) = false := by rw [still t]; rfl
  have keeps (s : World ι θ) (action : Action ι θ) (u : World ι θ) (may : Closes action) :=
    storing_step (s := s) (u := u) may
  have stays (s : World ι θ) (action : Action ι θ) (u : World ι θ) (may : Closes action) :=
    parting_step (s := s) (u := u) (t := t) may
  have parted : Parting t u := by
    by_cases empty : s.caches t = []
    · have both : (∀ t, storing (u.threads t) = false) ∧ Parting t u := by
        apply exec_keeps _ closes ⟨quiet, Or.inl empty⟩ script
        intro s action u may holds taken
        exact ⟨keeps s action u may holds.1 taken, stays s action u may holds.1 holds.2 taken⟩
      exact both.2
    · rcases parts empty with ⟨p, called⟩ | called
      · apply exec_since keeps _ stays closes called quiet script
        intro s u _ taken
        cases step_of_taken taken with
        | flush idle alive here =>
          right
          simp [World.setPc, flushing]
      · apply exec_since keeps _ stays closes called quiet script
        intro s u _ taken
        cases step_of_taken taken with
        | exit idle => exact Or.inl (Function.update_self _ _ _)
  apply parted.resolve_right
  rw [over']
  exact Bool.false_ne_true

theorem queue_emptied (drained : Drained s) (script : exec next s actions = some u)
    (closes : ∀ action ∈ actions, Closes action) {p : ι} (called : .clear t p ∈ actions)
    (still : Still u) : queued (u.lane p) = 0 := by
  have cleared : Cleared p u := by
    apply exec_since (fun s action u may => drained_step may) _
      (fun s action u _ => cleared_step) closes called drained script
    intro s u _ taken
    cases step_of_taken taken with
    | clear idle here =>
      apply Cleared.mk
      · intro absent
        exact Option.some_ne_none _ (here.symm.trans absent)
      · right
        exact ⟨t, by simp [World.setPc, clearing]⟩
  apply cleared.emptied.resolve_right
  intro others
  obtain ⟨t, clears⟩ := others
  rw [still t] at clears
  cases clears

theorem available_zero (run : Reaches Taken World.empty s) (still : Still s) {p : ι}
    {pool : FastBufferPool} (here : s.pools p = some pool) (empty : pool.globalPool.items = []) :
    pool.available = 0 := by
  obtain ⟨-, size_lt, congr⟩ := (tracked_run run p).congruent pool here
  have rest (t : θ) : (((s.lane p).queue pool).threads t) = .idle := by
    change ((s.threads t).on p).counting = .idle
    rw [still t]
    rfl
  have pushes : CountedQueue.pushing ((s.lane p).queue pool) = 0 :=
    tally_zero fun t => congrArg CountedQueue.Pc.pushing (rest t)
  have pops : CountedQueue.popping ((s.lane p).queue pool) = 0 :=
    tally_zero fun t => congrArg CountedQueue.Pc.popping (rest t)
  have length : ((s.lane p).queue pool).queue.items.length = 0 := congrArg List.length empty
  rw [pushes, pops, length, Nat.add_zero, Nat.mod_eq_of_lt size_lt] at congr
  exact congr

theorem counted_out (run : Reaches Taken World.empty s) (still : Still s) (caches : ∀ t, s.caches t = [])
    (queues : ∀ p, queued (s.lane p) = 0) {n : Nat} (made : n < s.created) :
    FastLedger.heldCount n s.held + FastLedger.cached n s.leaked + FastLedger.cached n s.destroyed = 1 := by
  have counted := (FastLedger.total_run run).2 n
  have inQueues : tally (FastLedger.queued n) s.pools = 0 := by
    apply tally_zero
    intro p
    cases here : s.pools p with
    | none => rfl
    | some pool =>
      have length := queues p
      rw [FastProgress.queued_some (x := s.lane p) here] at length
      rw [FastLedger.queued, List.eq_nil_of_length_eq_zero length, List.countP_nil]
  have inCaches : tally (FastLedger.cached n) s.caches = 0 := by
    apply tally_zero
    intro t
    rw [caches t]
    rfl
  have inCalls : tally (FastLedger.carried n) s.threads = 0 := by
    apply tally_zero
    intro t
    rw [still t]
    rfl
  rw [FastLedger.total, inQueues, inCaches, inCalls, FastLedger.made, if_pos made] at counted
  omega

/-- Shut down in this order, the pools keep nothing, whatever calls are still made that store
nothing, and however all of them interleave: once every thread with buffers in its cache has called
`clear_thread_cache` or ended, and all calls are over, a `clear` leaves its pool without a buffer;
and when every pool has been cleared, each buffer ever made is behind a handle, leaked or destroyed. -/
theorem nothing_left_idle {v : World ι θ} {emptying clears : List (Action ι θ)}
    (run : Reaches Taken World.empty s) (still : Still s)
    (emptied : exec next s emptying = some u) (closes : ∀ action ∈ emptying, Closes action)
    (parts : ∀ t, s.caches t ≠ [] → (∃ p, .clearThreadCache t p ∈ emptying) ∨ .exit t ∈ emptying)
    (stillBetween : Still u)
    (cleared : exec next u clears = some v) (closesToo : ∀ action ∈ clears, Closes action)
    (stillAfter : Still v) :
    (∀ t, v.caches t = []) ∧
    (∀ t p pool, .clear t p ∈ clears → v.pools p = some pool →
      pool.globalPool.items = [] ∧ pool.available = 0) ∧
    ((∀ p, v.pools p ≠ none → ∃ t, .clear t p ∈ clears) → ∀ n, n < v.created →
      FastLedger.heldCount n v.held + FastLedger.cached n v.leaked + FastLedger.cached n v.destroyed = 1) := by
  have drained : Drained u := by
    constructor
    · exact fun t => caches_emptied still emptied closes (parts t) (stillBetween t)
    · intro t
      rw [stillBetween t]
      rfl
    · intro t p item
      rw [stillBetween t]
      intro same
      cases same
  have after : Drained v := exec_keeps (fun _ _ _ => drained_step) closesToo drained cleared
  have whole : Reaches Taken World.empty v := (run.trans (Reaches.of_exec emptied)).trans (Reaches.of_exec cleared)
  have empty {t : θ} {p : ι} (called : .clear t p ∈ clears) : queued (v.lane p) = 0 :=
    queue_emptied drained cleared closesToo called stillAfter
  refine ⟨after.caches, ?_, ?_⟩
  · intro t p pool called here
    have length := empty called
    rw [FastProgress.queued_some (x := v.lane p) here] at length
    have items := List.eq_nil_of_length_eq_zero length
    exact ⟨items, available_zero whole stillAfter here items⟩
  · intro all n made
    apply counted_out whole stillAfter after.caches _ made
    intro p
    by_cases here : v.pools p = none
    · change (v.pools p).elim 0 _ = 0
      rw [here, Option.elim_none]
    · obtain ⟨t, called⟩ := all p here
      exact empty called

def droppedOne : List (FastPool.Action Unit Bool) :=
  [.new () ⟨8, 2, 1⟩, .acquire false (), .advance false, .advance false, .advance false,
    .drop false 0, .advance false]

def emptyCache : List (FastPool.Action Unit Bool) :=
  [.clearThreadCache false (), .advance false, .advance false, .advance false, .advance false]

def clearPool : List (FastPool.Action Unit Bool) :=
  [.clear true (), .advance true, .advance true, .advance true]

theorem nothing_left_idle_one :
    ∃ s u v : FastPool.World Unit Bool, exec FastPool.next World.empty droppedOne = some s ∧
      (s.caches false).length = 1 ∧ exec FastPool.next s emptyCache = some u ∧
      exec FastPool.next u clearPool = some v ∧ v.created = 1 ∧ (∀ t, v.caches t = []) ∧
      FastLedger.heldCount 0 v.held + FastLedger.cached 0 v.leaked + FastLedger.cached 0 v.destroyed = 1 := by
  obtain ⟨s, u, v, script, full, emptied, cleared, created, idle, between, after, pools⟩ :
      ∃ s u v : FastPool.World Unit Bool, exec FastPool.next World.empty droppedOne = some s ∧
        (s.caches false).length = 1 ∧ exec FastPool.next s emptyCache = some u ∧
        exec FastPool.next u clearPool = some v ∧ v.created = 1 ∧
        Still s ∧ Still u ∧ Still v ∧ s.caches true = [] :=
    ⟨_, _, _, rfl, rfl, rfl, rfl, rfl, fun t => by cases t <;> rfl, fun t => by cases t <;> rfl,
      fun t => by cases t <;> rfl, rfl⟩
  have closes : ∀ action ∈ emptyCache, Closes action := by
    intro action member
    simp only [emptyCache, List.mem_cons, List.not_mem_nil, or_false] at member
    rcases member with rfl | rfl | rfl | rfl | rfl <;> trivial
  have closesToo : ∀ action ∈ clearPool, Closes action := by
    intro action member
    simp only [clearPool, List.mem_cons, List.not_mem_nil, or_false] at member
    rcases member with rfl | rfl | rfl | rfl <;> trivial
  have parts : ∀ t, s.caches t ≠ [] →
      (∃ p, .clearThreadCache t p ∈ emptyCache) ∨ .exit t ∈ emptyCache := by
    intro t full
    cases t with
    | true => exact absurd pools full
    | false => exact Or.inl ⟨(), List.mem_cons_self⟩
  have done := nothing_left_idle (.of_exec script) idle emptied closes parts between cleared closesToo after
  have counted := done.2.2 (fun _ _ => ⟨true, List.mem_cons_self⟩) 0 (by rw [created]; decide)
  exact ⟨s, u, v, script, full, emptied, cleared, created, done.1, counted⟩

end

end Secbuf.FastShutdown
