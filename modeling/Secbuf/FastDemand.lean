import Secbuf.FastFootprint

/-! How many buffers a lock-free pool has. A thread makes one only after it has found its own cache
and the queue empty, and by then all the rest are in use or on other threads: in their caches, at
most sixteen each, and in their hands. -/

namespace Secbuf.FastDemand
open Calls Storage BufferCore Custody Tally FastPool FastFootprint

section
variable {ι : Type}

def acquiring : Pc ι → Nat
  | .acquireCache _ | .acquirePopped _ _ | .acquireEmpty _ | .acquireDone _ _ => 1
  | _ => 0

def short : Pc ι → Nat
  | .acquireEmpty _ => 1
  | _ => 0

theorem inHand_short_le (pc : Pc ι) : inHand pc + short pc ≤ acquiring pc + 1 := by
  cases pc <;> simp [inHand, short, acquiring, Pc.carries]

end

section
variable {ι θ : Type} [Fintype ι] [Fintype θ]

/-- The buffers that are in use or asked for. -/
def demand (s : World ι θ) : Nat := s.held.length + ∑ t, acquiring (s.threads t)

def shortage (s : World ι θ) : Nat := ∑ t, short (s.threads t)

/-- No buffer is made by `warm`. -/
def Unwarmed (s : World ι θ) : Action ι θ → Prop
  | .advance t =>
    match s.threads t with
    | .warm _ (_ + 1) => False
    | _ => True
  | _ => True

def load (s : World ι θ) : Nat := idle s + s.held.length + shortage s

variable [DecidableEq θ] {s u : World ι θ} {t : θ} {pc : Pc ι}

omit [Fintype ι] in
theorem shortage_setPc (s : World ι θ) (t : θ) (pc : Pc ι) :
    shortage (s.setPc t pc) + short (s.threads t) = shortage s + short pc := by
  have mostly : Mostly .idle s.threads := Set.toFinite _
  have moved := tally_update (w := short) mostly rfl t pc
  rwa [tally_eq_sum, tally_eq_sum] at moved

/-- The step makes no buffer that was not on its way, and puts none on its way. -/
def Settles (s u : World ι θ) : Prop :=
  u.created + shortage u + s.leaked.length + s.destroyed.length ≤
    s.created + shortage s + u.leaked.length + u.destroyed.length

omit [Fintype ι] in
theorem settles_setPc (pc : Pc ι) (away : short pc = 0) (threads : u.threads = (s.setPc t pc).threads)
    (created : u.created = s.created) (leaked : u.leaked = s.leaked)
    (destroyed : s.destroyed.length ≤ u.destroyed.length) : Settles s u := by
  have moved := shortage_setPc s t pc
  have same : shortage u = shortage (s.setPc t pc) := by rw [shortage, threads]; rfl
  unfold Settles
  rw [created, leaked, same]
  omega

omit [Fintype ι] [DecidableEq θ] in
theorem settles_of_threads (threads : u.threads = s.threads) (created : u.created = s.created)
    (leaked : s.leaked.length ≤ u.leaked.length)
    (destroyed : s.destroyed.length ≤ u.destroyed.length) : Settles s u := by
  have same : shortage u = shortage s := by rw [shortage, threads]; rfl
  unfold Settles
  rw [created, same]
  omega

inductive Changes (s : World ι θ) : World ι θ → Prop
  | settles {u : World ι θ} (settles : Settles s u) : Changes s u
  | new {u : World ι θ} {p : ι} {pool : FastBufferPool} (absent : s.pools p = none)
      (there : u.pools p = some pool) (created : u.created = s.created + pool.config.minPoolSize)
      (leaked : u.leaked = s.leaked) (destroyed : u.destroyed = s.destroyed)
      (threads : u.threads = s.threads) : Changes s u
  | misses {t : θ} {p : ι} {pool : FastBufferPool} (pc : s.threads t = .acquireCache p)
      (here : s.pools p = some pool) (empty : s.caches t = []) (items : pool.globalPool.items = []) :
      Changes s (s.setPc t (.acquireEmpty p))

variable [DecidableEq ι] {action : Action ι θ}

omit [Fintype ι] in
theorem changes_of_step (step : Step s action u) (unwarmed : Unwarmed s action) : Changes s u := by
  cases step with
  | new absent made =>
    rename_i p config items
    exact .new absent (Function.update_self ..) rfl rfl rfl rfl
  | acquireMiss pc here empty items => exact .misses pc here (List.getLast?_eq_none_iff.mp empty) items
  | allocated pc here made =>
    rename_i t p pool buffer
    apply Changes.settles
    have moved := shortage_setPc s t (.acquireDone p ⟨s.created, buffer⟩)
    rw [pc] at moved
    change shortage (s.setPc t _) + 1 = shortage s + 0 at moved
    change s.created + 1 + shortage (s.setPc t _) + s.leaked.length + s.destroyed.length ≤
      s.created + shortage s + s.leaked.length + s.destroyed.length
    omega
  | warmPushed pc here made => simp [Unwarmed, pc] at unwarmed
  | acquire | hit | acquirePop | acquireCounted | handed | drop | stored | dropAdmitted | dropPushed
  | dropCounted | warm | warmEnd | warmCounted | clear | clearPop | clearEnd | flush | flushEnd
  | flushAdmitted | flushPushed | flushCounted =>
    exact .settles (settles_setPc _ rfl rfl rfl rfl le_rfl)
  | dropRefused | clearCounted =>
    exact .settles (settles_setPc _ rfl rfl rfl rfl (by simp [World.destroy, World.setPc, World.setPool]))
  | dropNow | exit | flushRefused =>
    exact .settles (settles_of_threads rfl rfl le_rfl (by simp [World.destroy, World.setCache]))
  | leak => exact .settles (settles_of_threads rfl rfl (by simp) le_rfl)
  | use | replace => exact .settles (settles_of_threads rfl rfl le_rfl le_rfl)

end

section
variable {θ : Type} [Fintype θ] [DecidableEq θ] {s u : World Unit θ} {m : Nat}

omit [DecidableEq θ] in
theorem sum_le_but {f g : θ → Nat} {k : Nat} {t : θ} (own : f t ≤ g t)
    (others : ∀ a, a ≠ t → f a ≤ g a + k) : ∑ a, f a ≤ ∑ a, g a + k * (Fintype.card θ - 1) := by
  classical
  have rest : ∑ a ∈ Finset.univ.erase t, f a ≤ ∑ a ∈ Finset.univ.erase t, (g a + k) :=
    Finset.sum_le_sum fun a member => others a (Finset.ne_of_mem_erase member)
  rw [Finset.sum_add_distrib, Finset.sum_const, Finset.card_erase_of_mem (Finset.mem_univ t),
    Finset.card_univ, smul_eq_mul, Nat.mul_comm] at rest
  rw [← Finset.add_sum_erase _ f (Finset.mem_univ t), ← Finset.add_sum_erase _ g (Finset.mem_univ t)]
  omega

/-- Where the queue and the thread's own cache are empty, what there is and what is on its way has
been asked for, but for what the other threads have. -/
theorem load_of_miss (run : Reaches Taken World.empty s) {t : θ} {pool : FastBufferPool}
    (pc : s.threads t = .acquireCache ()) (here : s.pools () = some pool) (empty : s.caches t = [])
    (items : pool.globalPool.items = []) :
    load (s.setPc t (.acquireEmpty ())) ≤
      demand s + (THREAD_CACHE_CAPACITY + 1) * (Fintype.card θ - 1) := by
  have queue : ∑ p, inQueue (s.pools p) = 0 := by simp [inQueue, here, items]
  have caches : ∑ a, (s.caches a).length ≤ ∑ _a : θ, 0 + THREAD_CACHE_CAPACITY * (Fintype.card θ - 1) :=
    sum_le_but (by rw [empty]; rfl) fun a _ =>
      (FastProgress.cache_le run a).trans (Nat.zero_add _).ge
  have hands : ∑ a, (inHand ((s.setPc t (.acquireEmpty ())).threads a) +
      short ((s.setPc t (.acquireEmpty ())).threads a)) ≤
        ∑ a, acquiring (s.threads a) + 1 * (Fintype.card θ - 1) := by
    apply sum_le_but (t := t)
    · rw [pc]
      simp [World.setPc, inHand, short, acquiring, Pc.carries]
    · intro a other
      have same : (s.setPc t (.acquireEmpty ())).threads a = s.threads a := Function.update_of_ne other _ _
      rw [same]
      exact inHand_short_le _
  rw [Finset.sum_add_distrib] at hands
  rw [Finset.sum_const_zero] at caches
  unfold load idle demand shortage
  change ∑ p, inQueue (s.pools p) + ∑ a, (s.caches a).length + _ + s.held.length + _ ≤ _
  rw [queue, Nat.add_mul]
  omega

theorem load_census (run : Reaches Taken World.empty s) :
    load s + s.leaked.length + s.destroyed.length = s.created + shortage s := by
  have balanced := census run
  unfold load
  omega

theorem load_settles (run : Reaches Taken World.empty s) (after : Reaches Taken World.empty u)
    (settles : Settles s u) : load u ≤ load s := by
  have before := load_census run
  have balanced := load_census after
  unfold Settles at settles
  omega

/-- The pool has what it began with, or what the most asked for needs. -/
def Sufficient (m : Nat) (s : World Unit θ) : Prop :=
  (s.pools () = none → load s = 0) ∧
    ∀ pool, s.pools () = some pool → load s ≤
      max pool.config.minPoolSize (m + (THREAD_CACHE_CAPACITY + 1) * (Fintype.card θ - 1))

theorem sufficient_step (run : Reaches Taken World.empty s) (asked : demand s ≤ m)
    (enough : Sufficient m s) {action : FastPool.Action Unit θ} (unwarmed : Unwarmed s action)
    (taken : Taken s action u) : Sufficient m u := by
  have step := step_of_taken taken
  have after : Reaches Taken World.empty u := run.tail ⟨action, taken⟩
  cases changes_of_step step unwarmed with
  | settles settles =>
    have less := load_settles run after settles
    cases here : s.pools () with
    | none =>
      have zero := enough.1 here
      exact ⟨fun _ => by omega, fun _ _ => by omega⟩
    | some pool =>
      obtain ⟨result, same, config⟩ := config_lane (lane_step step ()) here
      refine ⟨fun absent => ?_, fun other there => ?_⟩
      · exact absurd (same.symm.trans absent) (Option.some_ne_none result)
      · cases same.symm.trans there
        rw [config]
        exact less.trans (enough.2 pool here)
  | new absent there created leaked destroyed threads =>
    rename_i p pool
    have before := load_census run
    have balanced := load_census after
    have same : shortage u = shortage s := by rw [shortage, threads]; rfl
    have zero := enough.1 absent
    rw [created, leaked, destroyed, same] at balanced
    refine ⟨fun none => ?_, fun other here => ?_⟩
    · exact absurd (there.symm.trans none) (Option.some_ne_none pool)
    · cases here.symm.trans there
      exact le_trans (by omega) (le_max_left _ _)
  | misses pc here empty items =>
    rename_i t p pool
    have needed := load_of_miss run pc here empty items
    refine ⟨fun absent => ?_, fun other there => ?_⟩
    · exact absurd (here.symm.trans absent) (Option.some_ne_none pool)
    · exact needed.trans (le_trans (by omega) (le_max_right _ _))

/-- On one lock-free pool, in every interleaving of any number of threads, as long as `warm` makes no
buffer: what has been made and is neither leaked nor destroyed is never more than the pool began
with, or than the most buffers in use or asked for at one time and, for each thread but one, a full
cache and one in its hands. -/
theorem demand_bounds {actions : List (FastPool.Action Unit θ)} {pool : FastBufferPool}
    (script : exec FastPool.next World.empty actions = some s)
    (meets : Meets FastPool.next Unwarmed World.empty actions) (here : s.pools () = some pool) :
    s.created ≤ max pool.config.minPoolSize (peak FastPool.next demand World.empty actions +
      (THREAD_CACHE_CAPACITY + 1) * (Fintype.card θ - 1)) + s.leaked.length + s.destroyed.length := by
  have start : demand (World.empty : World Unit θ) = 0 := by simp [demand, World.empty, acquiring]
  have all : Reaches Taken World.empty s ∧
      demand s ≤ max 0 (peak FastPool.next demand World.empty actions) ∧
      Sufficient (max 0 (peak FastPool.next demand World.empty actions)) s := by
    apply exec_peaks (I := fun m s => Reaches Taken World.empty s ∧ demand s ≤ m ∧ Sufficient m s) _ _
      script meets
    · intro m s action t ⟨run, asked, enough⟩ unwarmed taken
      have after := sufficient_step run asked enough unwarmed taken
      refine ⟨run.tail ⟨action, taken⟩, le_max_right _ _, after.1, fun pool here => ?_⟩
      exact (after.2 pool here).trans (by omega)
    · refine ⟨.refl, start.le, fun _ => ?_, nofun⟩
      simp [load, idle, shortage, World.empty, inQueue, inHand, short, Pc.carries]
  obtain ⟨run, -, enough⟩ := all
  have bound := enough.2 pool here
  have balanced := load_census run
  rw [Nat.zero_max] at bound
  omega

end

def oneEach : List (FastPool.Action Unit Bool) :=
  [.new () ⟨8, 4, 0⟩, .acquire true (), .advance true, .advance true, .advance true, .drop true 0,
    .advance true, .acquire false (), .advance false, .advance false, .advance false]

theorem demand_bounds_one_each :
    ∃ s, exec FastPool.next World.empty oneEach = some s ∧ s.created = 2 ∧
      peak FastPool.next demand World.empty oneEach = 1 ∧ s.created ≤ 18 := by
  obtain ⟨s, pool, script, here, config, made, leaked, destroyed⟩ : ∃ s pool,
      exec FastPool.next World.empty oneEach = some s ∧ s.pools () = some pool ∧
      pool.config = ⟨8, 4, 0⟩ ∧ s.created = 2 ∧ s.leaked = [] ∧ s.destroyed = [] :=
    ⟨_, _, rfl, rfl, rfl, rfl, rfl, rfl⟩
  have asked : peak FastPool.next demand World.empty oneEach = 1 := by decide
  have meets : Meets FastPool.next Unwarmed World.empty oneEach :=
    ⟨trivial, trivial, trivial, trivial, trivial, trivial, trivial, trivial, trivial, trivial, trivial,
      trivial⟩
  have bound := demand_bounds script meets here
  rw [config, asked, leaked, destroyed] at bound
  exact ⟨s, script, made, asked, bound⟩

end Secbuf.FastDemand
