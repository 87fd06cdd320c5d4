import Secbuf.StandardPool
import Secbuf.Tally

/-! One mutex-based pool among many. Whatever a call is made on, it changes this pool and the
number of its handles in one of a few ways. -/

namespace Secbuf.StandardPool
open Calls Storage BufferCore Custody Tally

section
variable {ι : Type} [DecidableEq ι]

def live (p : ι) (s : World ι) : Nat := s.held.countP fun handle => handle.pool = p

def gets (p : ι) : Action ι → Nat
  | .acquire q => if q = p then 1 else 0
  | _ => 0

def lost (p : ι) (s : World ι) : Action ι → Nat
  | .dropNow i | .leak i => if s.held[i]?.any fun handle => handle.pool = p then 1 else 0
  | _ => 0

/-- The ways a pool, with the number of handles that are out, changes to another by one call;
the numbers between count the buffers taken and the handles lost. -/
inductive Change (pool : PoolInner) : Nat → Nat → Nat → PoolInner → Nat → Prop
  | elsewhere {n : Nat} : Change pool n 0 0 pool n
  | acquire {n : Nat} {buffer : Buffer} {after : PoolInner}
      (done : pool.acquire = .ok (buffer, after)) : Change pool n 1 0 after (n + 1)
  | drop {n : Nat} (buffer : Buffer) : Change pool (n + 1) 0 0 (pool.dropHandle buffer) n
  | lose {n : Nat} : Change pool (n + 1) 0 1 pool n
  | grow {n targetSize : Nat} {after : PoolInner} (done : pool.grow targetSize = .ok after) :
      Change pool n 0 0 after n
  | shrink {n : Nat} : Change pool n 0 0 pool.shrink n
  | clear {n : Nat} : Change pool n 0 0 pool.clear n

theorem change_config {pool after : PoolInner} {n got lost m : Nat}
    (change : Change pool n got lost after m) : after.config = pool.config := by
  cases change with
  | elsewhere => rfl
  | acquire done => rcases acquire_cases done with ⟨-, rfl⟩ | ⟨-, rfl⟩ <;> rfl
  | drop buffer => rcases dropHandle_cases pool buffer with ⟨-, result⟩ | result <;> rw [result]
  | lose => rfl
  | grow done =>
    obtain ⟨buffers, -, rfl⟩ := grow_cases done
    rfl
  | shrink => rfl
  | clear => rfl

variable {s t : World ι} {p : ι}

theorem change_setPool {q : ι} {pool other after : PoolInner} (here : s.pools p = some pool)
    (found : s.pools q = some other) {n got lost m : Nat}
    (same : q = p → Change other n got lost after m)
    (different : q ≠ p → Change pool n got lost pool m) :
    ∃ result, (s.setPool q after).pools p = some result ∧ Change pool n got lost result m := by
  by_cases eq : q = p
  · subst eq
    rw [here] at found
    cases found
    exact ⟨after, by simp [World.setPool], same rfl⟩
  · exact ⟨pool, by simpa [World.setPool, Function.update_apply, Ne.symm eq] using here,
      different eq⟩

theorem live_cons (p : ι) (handle : Handle ι) (held : List (Handle ι)) (pools : ι → Option PoolInner) :
    live p ⟨pools, handle :: held⟩ = live p ⟨pools, held⟩ + if handle.pool = p then 1 else 0 := by
  simp [live, List.countP_cons]

theorem live_eraseIdx {i : Nat} {handle : Handle ι} (here : s.held[i]? = some handle) (p : ι) :
    (s.held.eraseIdx i).countP (fun handle => handle.pool = p) +
      (if handle.pool = p then 1 else 0) = live p s := by
  simpa [live] using countP_eraseIdx (fun handle : Handle ι => decide (handle.pool = p)) here

theorem live_set {i : Nat} {handle : Handle ι} (here : s.held[i]? = some handle) (b : Buffer)
    (p : ι) : live p { s with held := s.held.set i { handle with buffer := b } } = live p s :=
  countP_set_same _ here rfl

theorem change_of_step {action : Action ι} {pool : PoolInner} (step : Step s action t)
    (here : s.pools p = some pool) :
    ∃ after, t.pools p = some after ∧
      Change pool (live p s) (gets p action) (lost p s action) after (live p t) := by
  cases step with
  | new absent made =>
    rename_i q config other
    have different : p ≠ q := by
      rintro rfl
      rw [here] at absent
      cases absent
    exact ⟨pool, by simpa [World.setPool, Function.update_apply, different] using here, .elsewhere⟩
  | acquire found done =>
    refine change_setPool here found (fun same => ?_) fun different => ?_
    · rw [live_cons, if_pos same, gets, if_pos same]
      exact .acquire done
    · rw [live_cons, if_neg different, gets, if_neg different]
      exact .elsewhere
  | drop held found =>
    rename_i i handle other
    rw [← live_eraseIdx held p]
    refine change_setPool here found (fun same => ?_) fun different => ?_
    · rw [if_pos same]
      exact .drop handle.buffer
    · rw [if_neg different]
      exact .elsewhere
  | dropNow held | leak held =>
    rename_i i handle
    refine ⟨pool, here, ?_⟩
    rw [← live_eraseIdx held p, lost, held, Option.any_some]
    by_cases same : handle.pool = p
    · rw [if_pos same, if_pos (by simpa using same)]
      exact .lose
    · rw [if_neg same, if_neg (by simpa using same)]
      exact .elsewhere
  | grow found done => exact change_setPool here found (fun _ => .grow done) fun _ => .elsewhere
  | shrink found => exact change_setPool here found (fun _ => .shrink) fun _ => .elsewhere
  | clear found => exact change_setPool here found (fun _ => .clear) fun _ => .elsewhere
  | use held stepped =>
    refine ⟨pool, here, ?_⟩
    rw [live_set held]
    exact .elsewhere
  | replace held =>
    refine ⟨pool, here, ?_⟩
    rw [live_set held]
    exact .elsewhere

end

end Secbuf.StandardPool
