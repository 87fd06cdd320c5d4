import Secbuf.Gauge
import Secbuf.PoolCap

/-! How many buffers a mutex-based pool makes. While its users return what they take and never hold
more than `max_pool_size` at once, it makes one more only when more are out than ever before. -/

namespace Secbuf.PoolDemand
open Calls Storage BufferCore Custody StandardPool Statistics

section
variable {ι : Type} [DecidableEq ι] {s t : World ι} {p : ι} {action : Action ι}

/-- The pool's buffers are taken by `acquire` and given back by dropping the handle, and its idle
buffers are left to it. Other pools may be used in any way. -/
def Returning (p : ι) (s : World ι) : Action ι → Prop
  | .grow q _ | .shrink q | .clear q => q ≠ p
  | .dropNow i => lost p s (.dropNow i) = 0
  | .leak i => lost p s (.leak i) = 0
  | _ => True

inductive Turn (pool : PoolInner) : Nat → PoolInner → Nat → Prop
  | none {n : Nat} : Turn pool n pool n
  | take {n : Nat} {buffer : Buffer} {after : PoolInner} (done : pool.acquire = .ok (buffer, after)) :
      Turn pool n after (n + 1)
  | giveBack {n : Nat} (buffer : Buffer) : Turn pool (n + 1) (pool.dropHandle buffer) n

theorem turn_elsewhere {q : ι} {pool other : PoolInner} (here : s.pools p = some pool)
    (different : q ≠ p) {n : Nat} :
    ∃ after, (s.setPool q other).pools p = some after ∧ Turn pool n after n :=
  ⟨pool, (Function.update_of_ne different.symm ..).trans here, .none⟩

theorem turn_of_step {pool : PoolInner} (step : Step s action t) (here : s.pools p = some pool)
    (returning : Returning p s action) :
    ∃ after, t.pools p = some after ∧ Turn pool (live p s) after (live p t) := by
  cases step with
  | new absent made =>
    apply turn_elsewhere here
    intro same
    cases here.symm.trans (same ▸ absent)
  | acquire found done =>
    rename_i q other after buffer
    rw [live_cons]
    by_cases same : q = p
    · subst same
      rw [if_pos rfl]
      cases here.symm.trans found
      exact ⟨after, Function.update_self .., .take done⟩
    · rw [if_neg same]
      exact turn_elsewhere here same
  | drop held found =>
    rename_i i handle other
    rw [← live_eraseIdx held p]
    by_cases same : handle.pool = p
    · rw [if_pos same]
      subst same
      cases here.symm.trans found
      exact ⟨_, Function.update_self .., .giveBack handle.buffer⟩
    · rw [if_neg same]
      exact turn_elsewhere here same
  | dropNow held | leak held =>
    rename_i i handle
    have different : handle.pool ≠ p := by
      intro same
      simp [Returning, lost, held, same] at returning
    have counted := live_eraseIdx held p
    rw [if_neg different, Nat.add_zero] at counted
    rw [← counted]
    exact ⟨pool, here, .none⟩
  | grow found done | shrink found | clear found => exact turn_elsewhere here returning
  | use held stepped | replace held =>
    rw [live_set held]
    exact ⟨pool, here, .none⟩

theorem acquire_turns {pool after : PoolInner} {buffer : Buffer}
    (done : pool.acquire = .ok (buffer, after)) :
    (after.buffers.length + 1 = pool.buffers.length ∧ after.totalAllocated = pool.totalAllocated) ∨
      (pool.buffers.length = 0 ∧ after.buffers.length = 0 ∧
        after.totalAllocated = usizeAdd pool.totalAllocated 1) := by
  cases top : pool.buffers.getLast? with
  | some last =>
    left
    have idle : 0 < pool.buffers.length := List.length_pos_of_mem (List.mem_of_getLast? top)
    simp only [PoolInner.acquire, top] at done
    cases done
    exact ⟨by rw [List.length_dropLast]; omega, rfl⟩
  | none =>
    right
    have empty : pool.buffers.length = 0 := by
      rw [List.getLast?_eq_none_iff.mp top, List.length_nil]
    rcases acquire_cases done with ⟨some, -⟩ | ⟨made, rfl⟩
    · cases top.symm.trans some
    · exact ⟨empty, empty, rfl⟩

/-- The pool's stock is what it began with, or the most that has ever been out. -/
structure Stocked (config : PoolConfig) (most : Nat) (pool : PoolInner) (out : Nat) : Prop where
  config_eq : pool.config = config
  reached : out ≤ most
  stock : most ≤ config.maxPoolSize → pool.buffers.length + out = max config.minPoolSize most
  allocated : most ≤ config.maxPoolSize →
    pool.totalAllocated = (most - config.minPoolSize) % 2 ^ 64

theorem stocked_new {config : PoolConfig} {pool : PoolInner} (made : PoolInner.new config = .ok pool) :
    Stocked config 0 pool 0 := by
  obtain ⟨buffers, pushed, rfl⟩ := new_cases made
  have length := pushFresh_length pushed
  refine ⟨rfl, le_rfl, fun _ => ?_, fun _ => ?_⟩
  · simpa using length
  · simp

theorem stocked_turn {config : PoolConfig} {most out out' : Nat} {pool after : PoolInner}
    (begins : config.minPoolSize ≤ config.maxPoolSize) (stocked : Stocked config most pool out)
    (turn : Turn pool out after out') : Stocked config (max most out') after out' := by
  obtain ⟨rfl, reached, stock, allocated⟩ := stocked
  cases turn with
  | none =>
    rw [Nat.max_eq_left reached]
    exact ⟨rfl, reached, stock, allocated⟩
  | take done =>
    have config := change_config (Change.acquire (n := out) done)
    refine ⟨config, le_max_right _ _, fun small => ?_, fun small => ?_⟩
    · have before := stock (by omega)
      have sold := allocated (by omega)
      rcases acquire_turns done with ⟨shorter, -⟩ | ⟨empty, still, -⟩
      · omega
      · omega
    · have before := stock (by omega)
      have sold := allocated (by omega)
      rcases acquire_turns done with ⟨shorter, same⟩ | ⟨empty, -, more⟩
      · rw [same, sold]
        omega
      · rw [more, sold, usizeAdd]
        omega
  | giveBack buffer =>
    rw [Nat.max_eq_left (Nat.le_of_succ_le reached)]
    have same : (pool.dropHandle buffer).totalAllocated = pool.totalAllocated := by
      rcases dropHandle_cases pool buffer with ⟨-, result⟩ | result <;> rw [result]
    have config : (pool.dropHandle buffer).config = pool.config :=
      change_config (Change.drop (n := out') buffer)
    refine ⟨config, Nat.le_of_succ_le reached, fun small => ?_, fun small => same ▸ allocated small⟩
    have before := stock small
    -- The handle that comes back was part of a stock within the cap, so there is room for it.
    have room : pool.buffers.length < pool.config.maxPoolSize := by omega
    simp only [PoolInner.dropHandle, if_pos room, List.length_append, List.length_singleton]
    omega

variable {r : World ι} {config : PoolConfig} {actions : List (Action ι)}

theorem live_unmade (run : Reaches Taken World.empty s) (absent : s.pools p = none) : live p s = 0 := by
  have account : ∃ got lost, Gauge.Account p got lost s := by
    apply run.keeps (I := fun s => ∃ got lost, Gauge.Account p got lost s)
    · exact ⟨0, 0, rfl, rfl, rfl⟩
    · intro s action t before taken
      obtain ⟨got, lost, account⟩ := before
      exact ⟨_, _, Gauge.account_step account (step_of_taken taken)⟩
  obtain ⟨got, lost, account⟩ := account
  simp only [Gauge.Account, absent] at account
  exact account.2.1

theorem acquired_since (run : Reaches Taken World.empty r) (made : Taken r (.new p config) s)
    (script : exec next s actions = some t) {pool : PoolInner} (here : t.pools p = some pool) :
    pool.totalAcquired = total next (fun _ action => gets p action) s actions % 2 ^ 64 := by
  have start : Gauge.Account p 0 0 s := by
    cases step_of_taken made with
    | new absent new => exact Gauge.account_new new (live_unmade run absent)
  have account := exec_adds (w := fun _ action => gets p action) (v := lost p)
    (fun _ _ _ _ _ account taken => Gauge.account_step account (step_of_taken taken)) start script
  simp only [Gauge.Account, here] at account
  rw [account.acquired, Nat.zero_add]

/-- A pool whose users return what they take, and never hold more than `max_pool_size` of its
buffers at once, has made as many buffers beyond its first ones as the most that were ever out
exceed them, and still has them all: idle or out. Every other `acquire` was a hit, and `hit_rate()`
says so. -/
theorem demand_met (run : Reaches Taken World.empty r) (made : Taken r (.new p config) s)
    (begins : config.minPoolSize ≤ config.maxPoolSize) (word : config.maxPoolSize < 2 ^ 64)
    (script : exec next s actions = some t) (returning : Meets next (Returning p) s actions)
    (most : peak next (live p) s actions ≤ config.maxPoolSize) :
    ∃ pool, t.pools p = some pool ∧
      pool.totalAllocated = peak next (live p) s actions - config.minPoolSize ∧
      pool.available + live p t = max config.minPoolSize (peak next (live p) s actions) ∧
      ∀ got, got = total next (fun _ action => gets p action) s actions → got < 2 ^ 64 →
        ∀ f64, (stats pool).hitRate f64 =
          percent f64 (got - (peak next (live p) s actions - config.minPoolSize)) got := by
  have start : ∃ pool, s.pools p = some pool ∧ Stocked config 0 pool (live p s) := by
    cases step_of_taken made with
    | new absent new =>
      rename_i pool
      have unheld := live_unmade run absent
      have still : live p (r.setPool p pool) = 0 := unheld
      rw [still]
      exact ⟨pool, Function.update_self .., stocked_new new⟩
  have one (m : Nat) (s : World ι) (action : Action ι) (t : World ι)
      (before : ∃ pool, s.pools p = some pool ∧ Stocked config m pool (live p s))
      (allowed : Returning p s action) (taken : next s action = some t) :
      ∃ pool, t.pools p = some pool ∧ Stocked config (max m (live p t)) pool (live p t) := by
    obtain ⟨pool, here, stocked⟩ := before
    obtain ⟨after, there, turn⟩ := turn_of_step (step_of_taken taken) here allowed
    exact ⟨after, there, stocked_turn begins stocked turn⟩
  obtain ⟨pool, here, stocked⟩ := exec_peaks one start script returning
  rw [Nat.zero_max] at stocked
  have allocated : pool.totalAllocated = peak next (live p) s actions - config.minPoolSize := by
    rw [stocked.allocated most]
    exact Nat.mod_eq_of_lt (by omega)
  refine ⟨pool, here, allocated, stocked.stock most, ?_⟩
  intro got counted small f64
  have acquired := acquired_since run made script here
  rw [← counted, Nat.mod_eq_of_lt small] at acquired
  simp only [PoolStats.hitRate, stats, acquired, allocated]

theorem demand_met_two :
    ∃ s t : World Unit, ∃ pool, Taken World.empty (.new () ⟨8, 2, 1⟩) s ∧
      exec next s [.acquire (), .acquire (), .drop 0, .acquire (), .drop 1, .drop 0] = some t ∧
      t.pools () = some pool ∧ pool.totalAllocated = 1 ∧ pool.available + live () t = 2 ∧
      ∀ f64, (stats pool).hitRate f64 = percent f64 2 3 := by
  obtain ⟨s, t, made, script, most, got⟩ : ∃ s t : World Unit,
      Taken World.empty (.new () ⟨8, 2, 1⟩) s ∧
      exec next s [.acquire (), .acquire (), .drop 0, .acquire (), .drop 1, .drop 0] = some t ∧
      peak next (live ()) s [.acquire (), .acquire (), .drop 0, .acquire (), .drop 1, .drop 0] = 2 ∧
      total next (fun _ action => gets () action) s
        [.acquire (), .acquire (), .drop 0, .acquire (), .drop 1, .drop 0] = 3 :=
    ⟨_, _, rfl, rfl, rfl, rfl⟩
  have returning : Meets next (Returning ()) s
      [.acquire (), .acquire (), .drop 0, .acquire (), .drop 1, .drop 0] := by
    apply Meets.of_all
    intro s action member
    simp only [List.mem_cons, List.not_mem_nil, or_false] at member
    rcases member with rfl | rfl | rfl | rfl | rfl | rfl <;> trivial
  obtain ⟨pool, here, sold, stock, rate⟩ :=
    demand_met .refl made (by decide) (by decide) script returning (by rw [most])
  rw [most] at sold stock rate
  exact ⟨s, t, pool, made, script, here, sold, stock, rate 3 got.symm (by decide)⟩

end

end Secbuf.PoolDemand
