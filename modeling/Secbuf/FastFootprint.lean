import Mathlib.Algebra.BigOperators.Group.Finset.Sigma
import Secbuf.FastLedger
import Secbuf.FastProgress
import Secbuf.QueueBound

/-! How much memory the lock-free pools keep. Every buffer in existence is behind a handle, in a
queue, in a cache or in the hands of a call; queues and caches are bounded, and a call holds one
buffer at a time. -/

namespace Secbuf.FastFootprint
open Calls Storage BufferCore Custody Tally FastPool QueueBound
open FastLedger (numbered queued cached carried heldCount made total_run)

def inHand {ι : Type} (pc : Pc ι) : Nat := if pc.carries.isSome then 1 else 0

def inQueue : Option FastBufferPool → Nat
  | some pool => pool.globalPool.items.length
  | none => 0

section
variable {ι θ : Type} [Fintype ι] [Fintype θ]

def idle (s : World ι θ) : Nat :=
  ∑ p, inQueue (s.pools p) + ∑ t, (s.caches t).length + ∑ t, inHand (s.threads t)

/-- A buffer for each thread more than the pool's own bound. -/
def most (θ : Type) [Fintype θ] : Option FastBufferPool → Nat
  | some pool => pool.config.maxPoolSize + Fintype.card θ
  | none => 0

/-- The limits are in order and leave room for the threads below 2^64, and a push of `warm` finds
room. -/
def Calm [DecidableEq ι] (s : World ι θ) : Action ι θ → Prop
  | .new _ config =>
    config.minPoolSize ≤ config.maxPoolSize ∧ config.maxPoolSize + 2 * Fintype.card θ < 2 ^ 64
  | .advance t =>
    match s.threads t with
    | .warm p (_ + 1) => ∀ pool, s.pools p = some pool → Below (s.lane p) pool
    | _ => True
  | _ => True

/-! Every number below `n` once. -/

theorem sum_cached {n : Nat} {items : List Item} (below : ∀ item ∈ items, item.serial < n) :
    ∑ k ∈ Finset.range n, cached k items = items.length := by
  induction items with
  | nil => simp [cached]
  | cons item rest ih =>
    have one : ∑ k ∈ Finset.range n, cached k [item] = 1 := by
      have here : item.serial ∈ Finset.range n :=
        Finset.mem_range.mpr (below item List.mem_cons_self)
      simp [cached, numbered, List.countP_cons, here]
    calc ∑ k ∈ Finset.range n, cached k (item :: rest)
        = ∑ k ∈ Finset.range n, (cached k rest + cached k [item]) :=
          Finset.sum_congr rfl fun k _ => FastLedger.cached_cons k item rest
      _ = rest.length + 1 := by
          rw [Finset.sum_add_distrib, ih fun other later => below other (List.mem_cons_of_mem _ later),
            one]
      _ = (item :: rest).length := rfl

theorem below_of_cached {n : Nat} {items : List Item} (none : ∀ k, n ≤ k → cached k items = 0) :
    ∀ item ∈ items, item.serial < n := by
  intro item member
  by_contra above
  have counted := none item.serial (Nat.le_of_not_lt above)
  have found : 0 < cached item.serial items :=
    List.countP_pos_iff.mpr ⟨item, member, decide_eq_true rfl⟩
  omega

theorem sum_queued {n : Nat} {pool : Option FastBufferPool} (none : ∀ k, n ≤ k → queued k pool = 0) :
    ∑ k ∈ Finset.range n, queued k pool = inQueue pool := by
  cases pool with
  | none => simp [queued, inQueue]
  | some pool => exact sum_cached (below_of_cached none)

omit [Fintype ι] in
theorem sum_carried {n : Nat} {pc : Pc ι} (none : ∀ k, n ≤ k → carried k pc = 0) :
    ∑ k ∈ Finset.range n, carried k pc = inHand pc := by
  unfold carried inHand at *
  cases carries : pc.carries with
  | none => simp
  | some load =>
    simp only [carries] at none ⊢
    exact sum_cached (below_of_cached none)

omit [Fintype ι] in
theorem heldCount_eq (n : Nat) (held : List (FastHandle ι)) :
    heldCount n held = cached n (held.map FastHandle.item) := by
  rw [heldCount, cached, List.countP_map]
  rfl

variable [DecidableEq ι] [DecidableEq θ] {s : World ι θ}

/-- No buffer is lost or made twice. -/
theorem census (run : Reaches Taken World.empty s) :
    s.created = idle s + s.held.length + s.leaked.length + s.destroyed.length := by
  obtain ⟨few, balanced⟩ := total_run run
  have absent (k : Nat) (later : s.created ≤ k) : FastLedger.total k s = 0 := by
    rw [balanced k, made, if_neg (by omega)]
  have parts (k : Nat) (later : s.created ≤ k) := absent k later
  unfold FastLedger.total at parts
  have queues : ∑ k ∈ Finset.range s.created, tally (queued k) s.pools = ∑ p, inQueue (s.pools p) := by
    simp only [tally_eq_sum]
    rw [Finset.sum_comm]
    refine Finset.sum_congr rfl fun p _ => sum_queued fun k later => ?_
    exact eq_zero_of_tally few.pools rfl (by have none := parts k later; omega) p
  have caches : ∑ k ∈ Finset.range s.created, tally (cached k) s.caches =
      ∑ t, (s.caches t).length := by
    simp only [tally_eq_sum]
    rw [Finset.sum_comm]
    refine Finset.sum_congr rfl fun t _ => sum_cached (below_of_cached fun k later => ?_)
    exact eq_zero_of_tally few.caches rfl (by have none := parts k later; omega) t
  have hands : ∑ k ∈ Finset.range s.created, tally (carried k) s.threads =
      ∑ t, inHand (s.threads t) := by
    simp only [tally_eq_sum]
    rw [Finset.sum_comm]
    refine Finset.sum_congr rfl fun t _ => sum_carried fun k later => ?_
    exact eq_zero_of_tally few.threads rfl (by have none := parts k later; omega) t
  have held : ∑ k ∈ Finset.range s.created, heldCount k s.held = s.held.length := by
    simp only [heldCount_eq]
    rw [sum_cached (below_of_cached fun k later => ?_), List.length_map]
    rw [← heldCount_eq]
    have none := parts k later
    omega
  have leaked : ∑ k ∈ Finset.range s.created, cached k s.leaked = s.leaked.length :=
    sum_cached (below_of_cached fun k later => by have none := parts k later; omega)
  have destroyed : ∑ k ∈ Finset.range s.created, cached k s.destroyed = s.destroyed.length :=
    sum_cached (below_of_cached fun k later => by have none := parts k later; omega)
  have each : ∑ k ∈ Finset.range s.created, FastLedger.total k s = s.created := by
    have one (k : Nat) (inside : k ∈ Finset.range s.created) : FastLedger.total k s = 1 := by
      rw [balanced k, made, if_pos (Finset.mem_range.mp inside)]
    rw [Finset.sum_congr rfl one]
    simp
  unfold FastLedger.total at each
  simp only [Finset.sum_add_distrib, queues, caches, hands, held, leaked, destroyed] at each
  exact each.symm

/-! The bounds. -/

omit [Fintype ι] [Fintype θ] [DecidableEq ι] [DecidableEq θ] in
theorem inHand_le (pc : Pc ι) : inHand pc ≤ 1 := by
  unfold inHand
  split_ifs <;> decide

def Sized (x : Lane ι θ) : Prop := ∀ pool, x.pool = some pool →
  pool.config.minPoolSize ≤ pool.config.maxPoolSize ∧
    pool.config.maxPoolSize + 2 * Fintype.card θ < 2 ^ 64

omit [Fintype ι] in
theorem sized_step {p : ι} {action : Action ι θ} {u : World ι θ} (sized : Sized (s.lane p))
    (calm : Calm s action) (step : Step s action u) : Sized (u.lane p) := by
  intro after there
  cases here : (s.lane p).pool with
  | some pool =>
    obtain ⟨result, same, config⟩ := config_lane (lane_step step p) here
    cases there.symm.trans same
    rw [config]
    exact sized pool here
  | none =>
    have lane := lane_step step p
    generalize u.lane p = y at lane there
    generalize gets p action = entered at lane
    generalize lost p s action = left at lane
    cases lane with
    | new absent length =>
      cases there
      exact calm
    | works stands found | acquire idle found | hit pc found | allocated pc found
    | drop idle found => exact absurd (here.symm.trans found) (Option.some_ne_none _).symm
    | elsewhere | quiet | handed | lose =>
      exact absurd (here.symm.trans there) (Option.some_ne_none after).symm

omit [Fintype ι] [DecidableEq θ] in
theorem allowed_of_calm {p : ι} {action : Action ι θ} (bounded : Bounded (s.lane p))
    (sized : Sized (s.lane p)) (calm : Calm s action) : Allowed (s.lane p) action := by
  cases action with
  | advance t =>
    intro pool here
    obtain ⟨ordered, words⟩ := sized pool here
    have within := bounded pool here ordered
    have fits : Fits θ pool := by
      unfold Fits
      omega
    split
    · rename_i q left stands
      have inside : s.threads t = .warm q (left + 1) := eq_of_on stands (by simp)
      have on : q = p := by
        have seen : (s.threads t).on p = .warm q (left + 1) := stands
        rw [inside, Pc.on] at seen
        split_ifs at seen with same
        exact Option.some.inj same
      simp only [Calm, inside] at calm
      subst on
      exact calm pool here
    · exact fits
    · exact fits
    · trivial
  | _ => trivial

omit [Fintype ι] in
theorem bounded_run (run : Reaches (Guarded Calm Taken) World.empty s) (p : ι) :
    Bounded (s.lane p) ∧ Sized (s.lane p) := by
  have all : (s.lane p).Tracked ∧ Bounded (s.lane p) ∧ Sized (s.lane p) := by
    apply run.keeps (I := fun u => (u.lane p).Tracked ∧ Bounded (u.lane p) ∧ Sized (u.lane p))
    · exact ⟨tracked_empty p, nofun, nofun⟩
    · intro u action v ⟨tracked, bounded, sized⟩ ⟨calm, taken⟩
      have step := step_of_taken taken
      have lane := lane_step step p
      exact ⟨tracked_step tracked lane,
        bounded_step tracked bounded (allowed_of_calm bounded sized calm) lane,
        sized_step sized calm step⟩
  exact all.2

/-- In every run whose pushes of `warm` find room, every buffer that was made and is neither leaked
nor destroyed is behind a handle or idle, and there are never more idle ones than the pools may
keep, with a buffer for each pool and thread, a full cache for each thread, and one in its hands. -/
theorem footprint_bounded (run : Reaches (Guarded Calm Taken) World.empty s) :
    s.created = idle s + s.held.length + s.leaked.length + s.destroyed.length ∧
    idle s ≤ ∑ p, most θ (s.pools p) + (THREAD_CACHE_CAPACITY + 1) * Fintype.card θ := by
  have free : Reaches Taken World.empty s := run.of_steps fun _ _ _ taken => taken.2
  have queues : ∑ p, inQueue (s.pools p) ≤ ∑ p, most θ (s.pools p) := by
    refine Finset.sum_le_sum fun p _ => ?_
    obtain ⟨bounded, sized⟩ := bounded_run run p
    cases here : s.pools p with
    | none => exact Nat.le_refl 0
    | some pool =>
      have within := bounded pool here (sized pool here).1
      simp only [inQueue, most]
      omega
  have caches : ∑ t, (s.caches t).length ≤ ∑ _t : θ, THREAD_CACHE_CAPACITY :=
    Finset.sum_le_sum fun t _ => FastProgress.cache_le free t
  have hands : ∑ t, inHand (s.threads t) ≤ ∑ _t : θ, 1 :=
    Finset.sum_le_sum fun t _ => inHand_le (s.threads t)
  refine ⟨census free, ?_⟩
  simp only [Finset.sum_const, Finset.card_univ, smul_eq_mul] at caches hands
  unfold idle
  calc _ ≤ ∑ p, most θ (s.pools p) + Fintype.card θ * THREAD_CACHE_CAPACITY + Fintype.card θ * 1 :=
        Nat.add_le_add (Nat.add_le_add queues caches) hands
    _ = _ := by ring

def onePool : List (FastPool.Action Unit Bool) :=
  [.new () ⟨8, 1, 1⟩, .acquire false (), .advance false, .advance false, .advance false,
    .acquire true (), .advance true, .advance true, .advance true, .drop true 0, .advance true,
    .warm false () 1, .advance false, .advance false, .advance false]

theorem footprint_bounded_two :
    ∃ s : FastPool.World Unit Bool,
      exec FastPool.next World.empty onePool = some s ∧
      s.created = 3 ∧ idle s = 2 ∧ s.held.length = 1 ∧
      idle s ≤ ∑ p, most Bool (s.pools p) + (THREAD_CACHE_CAPACITY + 1) * Fintype.card Bool := by
  obtain ⟨s, script, made, rest, held⟩ : ∃ s : FastPool.World Unit Bool,
      exec FastPool.next World.empty onePool = some s ∧ s.created = 3 ∧ idle s = 2 ∧
        s.held.length = 1 :=
    ⟨_, rfl, rfl, by decide, rfl⟩
  have meets : Meets FastPool.next Calm (World.empty : FastPool.World Unit Bool) onePool := by
    refine ⟨⟨by decide, by decide⟩, trivial, trivial, trivial, trivial, trivial, trivial, trivial,
      trivial, trivial, trivial, trivial, ?_, trivial, trivial, trivial⟩
    rintro _ ⟨⟩
    change 0 + admitted _ < 1 + Fintype.card Bool
    rw [admitted, tally_zero (by decide)]
    decide
  exact ⟨s, script, made, rest, held, (footprint_bounded (.of_script script meets)).2⟩

end

end Secbuf.FastFootprint
