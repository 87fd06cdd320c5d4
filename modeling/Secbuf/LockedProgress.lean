import Secbuf.Calls
import Secbuf.LockedCalls

/-! How long locks are held. Whoever has a lock can always go on, and lets it go after a number of
its own steps that its call alone decides; so no thread waits for a thread that waits. -/

namespace Secbuf.LockedProgress
open Calls LockedCalls

/-- A thread's turn: it makes a call, or takes the next step of the one it is in. -/
inductive Turn (κ θ : Type) where
  | call (t : θ) (call : κ)
  | advance (t : θ)

def Turn.thread {κ θ : Type} : Turn κ θ → θ
  | .call t _ | .advance t => t

/-- Every way through the body, from values with `I` on, has at most `n` steps, and they keep `I`. -/
inductive Within {σ ρ : Type} (I : σ → Prop) : Nat → Body σ ρ → Prop
  | done {n : Nat} {answer : ρ} : Within I n (.done answer)
  | step {n : Nat} {change : σ → σ} {next : σ → Body σ ρ} (keeps : ∀ value, I value → I (change value))
      (later : ∀ value, I value → Within I n (next value)) : Within I (n + 1) (.step change next)

theorem Within.mono {σ ρ : Type} {I : σ → Prop} {n k : Nat} {body : Body σ ρ} (within : Within I n body)
    (less : n ≤ k) : Within I k body := by
  induction within generalizing k with
  | done => exact .done
  | step keeps later ih =>
    obtain ⟨k, rfl⟩ := Nat.exists_eq_add_of_lt (Nat.lt_of_lt_of_le (Nat.succ_pos _) less)
    exact .step keeps fun value holds => ih value holds (by omega)

section
variable {ι σ κ ρ θ : Type} [DecidableEq ι] [DecidableEq θ]

def next (program : Program ι σ κ ρ) (s : Locks ι σ κ ρ θ) : Turn κ θ → Option (Locks ι σ κ ρ θ)
  | .call t call =>
    match s.threads t with
    | .idle => some (s.setStage t (.waiting call))
    | _ => none
  | .advance t =>
    match s.threads t with
    | .idle => none
    | .waiting call =>
      if s.owner (program.lock call) = none then
        some ((s.setOwner (program.lock call) (some t)).setStage t (.inside call (program.body call)))
      else none
    | .inside call (.step change later) =>
      some ((s.setValue (program.lock call) (change (s.values (program.lock call)))).setStage t
        (.inside call (later (s.values (program.lock call)))))
    | .inside call (.done answer) =>
      some ((s.setOwner (program.lock call) none).setStage t (.leaving answer))
    | .leaving _ => some (s.setStage t .idle)

variable {program : Program ι σ κ ρ} {s m : Locks ι σ κ ρ θ} {p : ι} {t : θ}

inductive Goes (program : Program ι σ κ ρ) (s : Locks ι σ κ ρ θ) : Turn κ θ → Locks ι σ κ ρ θ → Prop
  | call {t : θ} {call : κ} (stands : s.threads t = .idle) :
      Goes program s (.call t call) (s.setStage t (.waiting call))
  | enter {t : θ} {call : κ} (stands : s.threads t = .waiting call)
      (free : s.owner (program.lock call) = none) :
      Goes program s (.advance t)
        ((s.setOwner (program.lock call) (some t)).setStage t (.inside call (program.body call)))
  | work {t : θ} {call : κ} {change : σ → σ} {later : σ → Body σ ρ}
      (stands : s.threads t = .inside call (.step change later)) :
      Goes program s (.advance t)
        ((s.setValue (program.lock call) (change (s.values (program.lock call)))).setStage t
          (.inside call (later (s.values (program.lock call)))))
  | leave {t : θ} {call : κ} {answer : ρ} (stands : s.threads t = .inside call (.done answer)) :
      Goes program s (.advance t) ((s.setOwner (program.lock call) none).setStage t (.leaving answer))
  | answer {t : θ} {answer : ρ} (stands : s.threads t = .leaving answer) :
      Goes program s (.advance t) (s.setStage t .idle)

theorem goes_of_next {turn : Turn κ θ} (went : next program s turn = some m) : Goes program s turn m := by
  cases turn with
  | call t call =>
    cases stands : s.threads t with
    | idle =>
      simp only [next, stands, Option.some.injEq] at went
      exact went ▸ .call stands
    | _ => simp [next, stands] at went
  | advance t =>
    cases stands : s.threads t with
    | idle => simp [next, stands] at went
    | waiting call =>
      by_cases free : s.owner (program.lock call) = none
      · simp only [next, stands, if_pos free, Option.some.injEq] at went
        exact went ▸ .enter stands free
      · simp [next, stands, free] at went
    | inside call rest =>
      cases rest with
      | step change later =>
        simp only [next, stands, Option.some.injEq] at went
        exact went ▸ .work stands
      | done answer =>
        simp only [next, stands, Option.some.injEq] at went
        exact went ▸ .leave stands
    | leaving answer =>
      simp only [next, stands, Option.some.injEq] at went
      exact went ▸ .answer stands

theorem stepwise_of_goes {turn : Turn κ θ} (goes : Goes program s turn m) : ∃ e, Stepwise program s e m := by
  cases goes with
  | call stands => exact ⟨_, .call stands⟩
  | enter stands free => exact ⟨_, .enter stands free⟩
  | work stands => exact ⟨_, .work stands⟩
  | leave stands => exact ⟨_, .leave stands⟩
  | answer stands => exact ⟨_, .answer stands⟩

theorem next_of_stepwise {e : Option (Event κ ρ θ)} (step : Stepwise program s e m) :
    ∃ turn, next program s turn = some m := by
  cases step with
  | @call t call stands => exact ⟨.call t call, by rw [next, stands]⟩
  | @enter t call stands free => exact ⟨.advance t, by simp only [next, stands, if_pos free]⟩
  | @work t call change later stands => exact ⟨.advance t, by rw [next, stands]⟩
  | @leave t call answer stands => exact ⟨.advance t, by rw [next, stands]⟩
  | @answer t answer stands => exact ⟨.advance t, by rw [next, stands]⟩

/-- Every interleaving is one of turns. -/
theorem reaches_of_shows {trace : List (Event κ ρ θ)} (shows : Shows (Stepwise program) s trace m) :
    Reaches (fun s turn m => next program s turn = some m) s m := by
  induction shows with
  | refl => exact .refl
  | silent moves _ ih => exact ih.head (next_of_stepwise moves)
  | event moves _ ih => exact ih.head (next_of_stepwise moves)

theorem goes_frame {turn : Turn κ θ} (goes : Goes program s turn m) (other : turn.thread ≠ t) :
    m.threads t = s.threads t := by
  cases goes <;> exact setStage_of_ne other.symm

/-- What a bound on the bodies gives in every state: values and bodies are as the bound assumes, and
each lock is with the thread that is inside a call for it. -/
structure Timely (program : Program ι σ κ ρ) (I : ι → σ → Prop) (bound : κ → Nat)
    (s : Locks ι σ κ ρ θ) : Prop where
  values : ∀ p, I p (s.values p)
  inside : ∀ t call rest, s.threads t = .inside call rest → Within (I (program.lock call)) (bound call) rest
  follows : ∃ a, Follows program s a

variable {I : ι → σ → Prop} {bound : κ → Nat}

omit [DecidableEq ι] [DecidableEq θ] in
theorem timely_start {values : ι → σ} (holds : ∀ p, I p (values p)) :
    Timely program I bound (.start values : Locks ι σ κ ρ θ) := by
  refine ⟨holds, ?_, _, follows_start values⟩
  intro t call rest stands
  cases stands

theorem timely_step (bodies : ∀ call, Within (I (program.lock call)) (bound call) (program.body call))
    (timely : Timely program I bound s) {e : Option (Event κ ρ θ)} (step : Stepwise program s e m) :
    Timely program I bound m := by
  have follows : ∃ b, Follows program m b := by
    obtain ⟨a, follows⟩ := timely.follows
    have runs (call : κ) (value : σ) : (program.body call).run value = (program.body call).run value := rfl
    obtain ⟨b, -, after⟩ := follows_step runs follows step
    exact ⟨b, after⟩
  cases step with
  | call stands =>
    exact ⟨timely.values, fun u call rest here => timely.inside u call rest (of_setStage (by simp) here).2,
      follows⟩
  | leave stands =>
    exact ⟨timely.values, fun u call rest here => timely.inside u call rest (of_setStage (by simp) here).2,
      follows⟩
  | answer stands =>
    exact ⟨timely.values, fun u call rest here => timely.inside u call rest (of_setStage (by simp) here).2,
      follows⟩
  | @enter t call stands free =>
    refine ⟨timely.values, ?_, follows⟩
    intro u other rest here
    by_cases mine : u = t
    · rw [mine, setStage_self] at here
      cases here
      exact bodies call
    · rw [setStage_of_ne mine] at here
      exact timely.inside u other rest here
  | @work t call change later stands =>
    have holds := timely.values (program.lock call)
    obtain ⟨keeps, less⟩ : (∀ value, I (program.lock call) value → I (program.lock call) (change value)) ∧
        Within (I (program.lock call)) (bound call) (later (s.values (program.lock call))) := by
      have within := timely.inside t call _ stands
      generalize bound call = most at within ⊢
      cases within with
      | step keeps rest => exact ⟨keeps, (rest _ holds).mono (Nat.le_succ _)⟩
    refine ⟨?_, ?_, follows⟩
    · intro p
      by_cases here : p = program.lock call
      · subst here
        rw [setStage_values, setValue_self]
        exact keeps _ holds
      · rw [setStage_values, setValue_of_ne here]
        exact timely.values p
    · intro u other rest here
      by_cases mine : u = t
      · rw [mine, setStage_self] at here
        cases here
        exact less
      · rw [setStage_of_ne mine] at here
        exact timely.inside u other rest here

theorem timely_run (bodies : ∀ call, Within (I (program.lock call)) (bound call) (program.body call))
    {values : ι → σ} (holds : ∀ p, I p (values p))
    (run : Reaches (fun s turn m => next program s turn = some m) (.start values : Locks ι σ κ ρ θ) s) :
    Timely program I bound s := by
  apply run.keeps (timely_start holds)
  intro s turn m timely went
  obtain ⟨e, step⟩ := stepwise_of_goes (goes_of_next went)
  exact timely_step bodies timely step

/-! One thread with a lock. -/

def keepsLock (program : Program ι σ κ ρ) (p : ι) (t : θ) (s : Locks ι σ κ ρ θ) (turn : Turn κ θ) :
    Option (Locks ι σ κ ρ θ) :=
  (next program s turn).filter fun m => m.owner p = some t

def own (t : θ) (_ : Locks ι σ κ ρ θ) (turn : Turn κ θ) : Nat := if turn.thread = t then 1 else 0

def Owes (program : Program ι σ κ ρ) (I : ι → σ → Prop) (p : ι) (t : θ) (n : Nat)
    (s : Locks ι σ κ ρ θ) : Prop :=
  ∃ call rest, s.threads t = .inside call rest ∧ program.lock call = p ∧ Within (I p) n rest

theorem owes_step (values : ∀ p, I p (s.values p)) {n : Nat} (owes : Owes program I p t n s)
    {turn : Turn κ θ} (went : keepsLock program p t s turn = some m) :
    ∃ k, Owes program I p t k m ∧ own t s turn + k ≤ n := by
  obtain ⟨call, rest, stands, lock, within⟩ := owes
  obtain ⟨taken, holds⟩ := Option.filter_eq_some_iff.mp went
  have goes := goes_of_next taken
  by_cases mine : turn.thread = t
  · rw [own, if_pos mine]
    cases goes with
    | call idle =>
      cases mine
      cases idle.symm.trans stands
    | enter waits free =>
      cases mine
      cases waits.symm.trans stands
    | answer leaves =>
      cases mine
      cases leaves.symm.trans stands
    | leave done =>
      cases mine
      cases done.symm.trans stands
      rw [setStage_owner, lock, setOwner_self] at holds
      cases of_decide_eq_true holds
    | @work _ _ change later working =>
      cases mine
      cases working.symm.trans stands
      cases within with
      | @step k _ _ keeps less =>
        refine ⟨k, ⟨call, _, setStage_self, lock, ?_⟩, by omega⟩
        rw [lock]
        exact less _ (values p)
  · refine ⟨n, ⟨call, rest, (goes_frame goes mine).trans stands, lock, within⟩, ?_⟩
    rw [own, if_neg mine]
    omega

theorem owes_run (bodies : ∀ call, Within (I (program.lock call)) (bound call) (program.body call))
    (timely : Timely program I bound s) {n : Nat} (owes : Owes program I p t n s)
    {turns : List (Turn κ θ)} {u : Locks ι σ κ ρ θ} (script : exec (keepsLock program p t) s turns = some u) :
    total (keepsLock program p t) (own t) s turns ≤ n := by
  have spent := exec_adds (w := own t) (v := fun _ _ => 0)
    (I := fun spent _ u => Timely program I bound u ∧ ∃ k, Owes program I p t k u ∧ spent + k ≤ n)
    (n := 0) (m := 0) ?_ ⟨timely, n, owes, by omega⟩ script
  · obtain ⟨-, k, -, less⟩ := spent
    omega
  · intro spent _ s turn m holds went
    obtain ⟨timely, k, owes, less⟩ := holds
    obtain ⟨k', after, fewer⟩ := owes_step timely.values owes went
    obtain ⟨e, step⟩ := stepwise_of_goes (goes_of_next (Option.filter_eq_some_iff.mp went).1)
    exact ⟨timely_step bodies timely step, k', after, by omega⟩

theorem goes_on {call : κ} {rest : Body σ ρ} (stands : s.threads t = .inside call rest) :
    ∃ m, next program s (.advance t) = some m := by
  cases rest with
  | step change later => exact ⟨_, by rw [next, stands]⟩
  | done answer => exact ⟨_, by rw [next, stands]⟩

/-- Whoever has a lock can go on, and lets it go after at most as many steps of its own as the bound
for its call says, whatever the others do; and a thread in a call can go on, or waits for one
that has its lock and can. -/
theorem lets_go (bodies : ∀ call, Within (I (program.lock call)) (bound call) (program.body call))
    (timely : Timely program I bound s) :
    (∀ p t, s.owner p = some t → ∃ call rest, s.threads t = .inside call rest ∧ program.lock call = p ∧
      ∀ turns u, exec (keepsLock program p t) s turns = some u →
        total (keepsLock program p t) (own t) s turns ≤ bound call) ∧
    ∀ t, s.threads t ≠ .idle → (∃ m, next program s (.advance t) = some m) ∨
      ∃ call u, s.threads t = .waiting call ∧ s.owner (program.lock call) = some u ∧ u ≠ t ∧
        ∃ m, next program s (.advance u) = some m := by
  obtain ⟨a, follows⟩ := timely.follows
  constructor
  · intro p t holds
    obtain ⟨call, rest, stands, lock, -⟩ := follows.owned p t holds
    refine ⟨call, rest, stands, lock, fun turns u script => ?_⟩
    have within := timely.inside t call rest stands
    rw [lock] at within
    exact owes_run bodies timely ⟨call, rest, stands, lock, within⟩ script
  · intro t busy
    cases stands : s.threads t with
    | idle => exact absurd stands busy
    | inside call rest => exact Or.inl (goes_on stands)
    | leaving answer => exact Or.inl ⟨_, by rw [next, stands]⟩
    | waiting call =>
      cases holds : s.owner (program.lock call) with
      | none =>
        left
        rw [next, stands]
        exact ⟨_, if_pos holds⟩
      | some u =>
        right
        obtain ⟨other, rest, inside, -⟩ := follows.owned _ u holds
        have apart : u ≠ t := by
          intro same
          rw [same, stands] at inside
          cases inside
        exact ⟨call, u, rfl, holds, apart, goes_on inside⟩

end

end Secbuf.LockedProgress
