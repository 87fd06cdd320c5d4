import Mathlib.Logic.Function.Basic

/-! Calls on values behind locks. A call waits for its lock, reads and writes the value behind it
step by step, lets the lock go and returns; in between, any other thread may take its next step.
Whoever only sees calls and answers cannot tell this from calls that are done in one step. Nothing
here depends on what the values are. -/

namespace Secbuf.LockedCalls

/-! What can be seen of a system, some of whose steps are silent. -/

section
variable {σ τ ε : Type}

inductive Shows (step : σ → Option ε → σ → Prop) : σ → List ε → σ → Prop
  | refl {s : σ} : Shows step s [] s
  | silent {s m u : σ} {trace : List ε} (moves : step s none m) (later : Shows step m trace u) :
      Shows step s trace u
  | event {s m u : σ} {e : ε} {trace : List ε} (moves : step s (some e) m)
      (later : Shows step m trace u) : Shows step s (e :: trace) u

variable {step : σ → Option ε → σ → Prop} {other : τ → Option ε → τ → Prop}

theorem Shows.trans {s m u : σ} {first second : List ε} (before : Shows step s first m)
    (after : Shows step m second u) : Shows step s (first ++ second) u := by
  induction before with
  | refl => exact after
  | silent moves _ ih => exact .silent moves (ih after)
  | event moves _ ih => exact .event moves (ih after)

theorem Shows.one {s m : σ} {e : Option ε} (moves : step s e m) : Shows step s e.toList m := by
  cases e with
  | none => exact .silent moves .refl
  | some e => exact .event moves .refl

/-- Where each step of one system can be followed by steps of the other that show the same, so can
each of its runs. -/
theorem shows_of_follows {R : σ → τ → Prop}
    (follows : ∀ s e m a, R s a → step s e m → ∃ b, Shows other a e.toList b ∧ R m b)
    {s u : σ} {a : τ} {trace : List ε} (related : R s a) (shows : Shows step s trace u) :
    ∃ b, Shows other a trace b ∧ R u b := by
  induction shows generalizing a with
  | refl => exact ⟨a, .refl, related⟩
  | silent moves _ ih =>
    obtain ⟨b, early, middle⟩ := follows _ _ _ _ related moves
    obtain ⟨c, late, last⟩ := ih middle
    exact ⟨c, early.trans late, last⟩
  | event moves _ ih =>
    obtain ⟨b, early, middle⟩ := follows _ _ _ _ related moves
    obtain ⟨c, late, last⟩ := ih middle
    exact ⟨c, early.trans late, last⟩

end

/-- A call that has its lock: changes of the value, each followed by what the value before it asks
for. -/
inductive Body (σ ρ : Type) where
  | done (answer : ρ)
  | step (change : σ → σ) (next : σ → Body σ ρ)

def Body.run {σ ρ : Type} : Body σ ρ → σ → σ × ρ
  | .done answer, value => (value, answer)
  | .step change next, value => (next value).run (change value)

structure Program (ι σ κ ρ : Type) where
  lock : κ → ι
  body : κ → Body σ ρ

inductive Event (κ ρ θ : Type) where
  | called (t : θ) (call : κ)
  | answered (t : θ) (answer : ρ)

/-- Where a thread stands, between its steps. -/
inductive Stage (σ κ ρ : Type) where
  | idle
  | waiting (call : κ)
  | inside (call : κ) (rest : Body σ ρ)
  | leaving (answer : ρ)

structure Locks (ι σ κ ρ θ : Type) where
  values : ι → σ
  owner : ι → Option θ
  threads : θ → Stage σ κ ρ

/-- Where a thread stands whose call is done in one step. -/
inductive Seen (κ ρ : Type) where
  | idle
  | called (call : κ)
  | done (answer : ρ)

structure Objects (ι σ κ ρ θ : Type) where
  values : ι → σ
  threads : θ → Seen κ ρ

section
variable {ι σ κ ρ θ : Type}

def Stage.seen : Stage σ κ ρ → Seen κ ρ
  | .idle => .idle
  | .waiting call | .inside call _ => .called call
  | .leaving answer => .done answer

def Seen.stage : Seen κ ρ → Stage σ κ ρ
  | .idle => .idle
  | .called call => .waiting call
  | .done answer => .leaving answer

def Locks.start (values : ι → σ) : Locks ι σ κ ρ θ := ⟨values, fun _ => none, fun _ => .idle⟩

def Objects.start (values : ι → σ) : Objects ι σ κ ρ θ := ⟨values, fun _ => .idle⟩

def Objects.locks (a : Objects ι σ κ ρ θ) : Locks ι σ κ ρ θ :=
  ⟨a.values, fun _ => none, fun t => (a.threads t).stage⟩

variable [DecidableEq ι] [DecidableEq θ]

def Locks.setValue (s : Locks ι σ κ ρ θ) (p : ι) (value : σ) : Locks ι σ κ ρ θ :=
  { s with values := Function.update s.values p value }

def Locks.setOwner (s : Locks ι σ κ ρ θ) (p : ι) (owner : Option θ) : Locks ι σ κ ρ θ :=
  { s with owner := Function.update s.owner p owner }

def Locks.setStage (s : Locks ι σ κ ρ θ) (t : θ) (stage : Stage σ κ ρ) : Locks ι σ κ ρ θ :=
  { s with threads := Function.update s.threads t stage }

def Objects.setValue (a : Objects ι σ κ ρ θ) (p : ι) (value : σ) : Objects ι σ κ ρ θ :=
  { a with values := Function.update a.values p value }

def Objects.setSeen (a : Objects ι σ κ ρ θ) (t : θ) (seen : Seen κ ρ) : Objects ι σ κ ρ θ :=
  { a with threads := Function.update a.threads t seen }

section
variable {s : Locks ι σ κ ρ θ} {a : Objects ι σ κ ρ θ} {p q : ι} {t u : θ} {value : σ}
  {owner : Option θ} {stage : Stage σ κ ρ} {seen : Seen κ ρ}

omit [DecidableEq ι] in
@[simp] theorem setStage_self : (s.setStage t stage).threads t = stage := Function.update_self ..
omit [DecidableEq ι] in
@[simp] theorem setStage_values : (s.setStage t stage).values = s.values := rfl
omit [DecidableEq ι] in
@[simp] theorem setStage_owner : (s.setStage t stage).owner = s.owner := rfl
omit [DecidableEq θ] in
@[simp] theorem setOwner_self : (s.setOwner p owner).owner p = owner := Function.update_self ..
omit [DecidableEq θ] in
@[simp] theorem setOwner_values : (s.setOwner p owner).values = s.values := rfl
omit [DecidableEq θ] in
@[simp] theorem setOwner_threads : (s.setOwner p owner).threads = s.threads := rfl
omit [DecidableEq θ] in
@[simp] theorem setValue_self : (s.setValue p value).values p = value := Function.update_self ..
omit [DecidableEq θ] in
@[simp] theorem setValue_owner : (s.setValue p value).owner = s.owner := rfl
omit [DecidableEq θ] in
@[simp] theorem setValue_threads : (s.setValue p value).threads = s.threads := rfl
omit [DecidableEq ι] in
@[simp] theorem setSeen_self : (a.setSeen t seen).threads t = seen := Function.update_self ..
omit [DecidableEq ι] in
@[simp] theorem setSeen_values : (a.setSeen t seen).values = a.values := rfl
omit [DecidableEq θ] in
@[simp] theorem objects_setValue_self : (a.setValue p value).values p = value :=
  Function.update_self ..
omit [DecidableEq θ] in
@[simp] theorem objects_setValue_threads : (a.setValue p value).threads = a.threads := rfl

omit [DecidableEq ι] in
theorem setStage_of_ne (other : u ≠ t) : (s.setStage t stage).threads u = s.threads u :=
  Function.update_of_ne other ..

omit [DecidableEq ι] in
theorem setSeen_of_ne (other : u ≠ t) : (a.setSeen t seen).threads u = a.threads u :=
  Function.update_of_ne other ..

omit [DecidableEq θ] in
theorem setOwner_of_ne (other : q ≠ p) : (s.setOwner p owner).owner q = s.owner q :=
  Function.update_of_ne other ..

omit [DecidableEq θ] in
theorem setValue_of_ne (other : q ≠ p) : (s.setValue p value).values q = s.values q :=
  Function.update_of_ne other ..

omit [DecidableEq θ] in
theorem objects_setValue_of_ne (other : q ≠ p) : (a.setValue p value).values q = a.values q :=
  Function.update_of_ne other ..

end

inductive Stepwise (program : Program ι σ κ ρ) (s : Locks ι σ κ ρ θ) :
    Option (Event κ ρ θ) → Locks ι σ κ ρ θ → Prop
  | call {t : θ} {call : κ} (stands : s.threads t = .idle) :
      Stepwise program s (some (.called t call)) (s.setStage t (.waiting call))
  | enter {t : θ} {call : κ} (stands : s.threads t = .waiting call)
      (free : s.owner (program.lock call) = none) :
      Stepwise program s none
        ((s.setOwner (program.lock call) (some t)).setStage t (.inside call (program.body call)))
  | work {t : θ} {call : κ} {change : σ → σ} {next : σ → Body σ ρ}
      (stands : s.threads t = .inside call (.step change next)) :
      Stepwise program s none
        ((s.setValue (program.lock call) (change (s.values (program.lock call)))).setStage t
          (.inside call (next (s.values (program.lock call)))))
  | leave {t : θ} {call : κ} {answer : ρ} (stands : s.threads t = .inside call (.done answer)) :
      Stepwise program s none
        ((s.setOwner (program.lock call) none).setStage t (.leaving answer))
  | answer {t : θ} {answer : ρ} (stands : s.threads t = .leaving answer) :
      Stepwise program s (some (.answered t answer)) (s.setStage t .idle)

/-- The same calls, each a single change of its value. -/
inductive AtOnce (lock : κ → ι) (whole : κ → σ → σ × ρ) (a : Objects ι σ κ ρ θ) :
    Option (Event κ ρ θ) → Objects ι σ κ ρ θ → Prop
  | call {t : θ} {call : κ} (stands : a.threads t = .idle) :
      AtOnce lock whole a (some (.called t call)) (a.setSeen t (.called call))
  | work {t : θ} {call : κ} {value : σ} {answer : ρ} (stands : a.threads t = .called call)
      (done : whole call (a.values (lock call)) = (value, answer)) :
      AtOnce lock whole a none ((a.setValue (lock call) value).setSeen t (.done answer))
  | answer {t : θ} {answer : ρ} (stands : a.threads t = .done answer) :
      AtOnce lock whole a (some (.answered t answer)) (a.setSeen t .idle)

/-! From steps to whole calls: the call is done where it lets its lock go. -/

/-- Each value is what the calls done so far have left, and if a thread has its lock, then that is
the value from which the rest of its call goes on as the whole call would have. -/
structure Follows (program : Program ι σ κ ρ) (s : Locks ι σ κ ρ θ) (a : Objects ι σ κ ρ θ) : Prop where
  threads : ∀ t, a.threads t = (s.threads t).seen
  owns : ∀ t call rest, s.threads t = .inside call rest → s.owner (program.lock call) = some t
  free : ∀ p, s.owner p = none → a.values p = s.values p
  owned : ∀ p t, s.owner p = some t → ∃ call rest, s.threads t = .inside call rest ∧
    program.lock call = p ∧ rest.run (s.values p) = (program.body call).run (a.values p)

variable {program : Program ι σ κ ρ} {whole : κ → σ → σ × ρ} {s m : Locks ι σ κ ρ θ}
  {a b : Objects ι σ κ ρ θ} {t : θ}

omit [DecidableEq ι] in
theorem of_setStage {stage : Stage σ κ ρ} (after : ∀ call rest, stage ≠ .inside call rest) {u : θ}
    {call : κ} {rest : Body σ ρ} (inside : (s.setStage t stage).threads u = .inside call rest) :
    u ≠ t ∧ s.threads u = .inside call rest := by
  by_cases mine : u = t
  · rw [mine, setStage_self] at inside
    exact absurd inside (after call rest)
  · exact ⟨mine, (setStage_of_ne mine).symm.trans inside⟩

omit [DecidableEq ι] in
theorem seen_setStage (threads : ∀ u, a.threads u = (s.threads u).seen) {stage : Stage σ κ ρ}
    {seen : Seen κ ρ} (same : stage.seen = seen) (u : θ) :
    (a.setSeen t seen).threads u = ((s.setStage t stage).threads u).seen := by
  by_cases mine : u = t
  · rw [mine, setSeen_self, setStage_self, same]
  · rw [setSeen_of_ne mine, setStage_of_ne mine]
    exact threads u

omit [DecidableEq ι] in
theorem seen_silent (threads : ∀ u, a.threads u = (s.threads u).seen) {stage : Stage σ κ ρ}
    (same : stage.seen = (s.threads t).seen) (u : θ) :
    a.threads u = ((s.setStage t stage).threads u).seen := by
  by_cases mine : u = t
  · rw [mine, setStage_self, same]
    exact threads t
  · rw [setStage_of_ne mine]
    exact threads u

omit [DecidableEq ι] in
theorem Follows.outside (follows : Follows program s a) {stage : Stage σ κ ρ} {seen : Seen κ ρ}
    (same : stage.seen = seen) (before : ∀ call rest, s.threads t ≠ .inside call rest)
    (after : ∀ call rest, stage ≠ .inside call rest) :
    Follows program (s.setStage t stage) (a.setSeen t seen) := by
  refine ⟨seen_setStage follows.threads same, ?_, follows.free, ?_⟩
  · intro u call rest inside
    exact follows.owns u call rest (of_setStage after inside).2
  · intro p u owner
    obtain ⟨call, rest, stands, there, runs⟩ := follows.owned p u owner
    have other : u ≠ t := by
      intro mine
      exact before call rest (mine ▸ stands)
    exact ⟨call, rest, (setStage_of_ne other).trans stands, there, runs⟩

theorem Follows.enter (follows : Follows program s a) {call : κ} (stands : s.threads t = .waiting call)
    (free : s.owner (program.lock call) = none) :
    Follows program
      ((s.setOwner (program.lock call) (some t)).setStage t (.inside call (program.body call))) a := by
  constructor
  · exact seen_silent follows.threads (by rw [stands]; rfl)
  · intro u other rest inside
    by_cases mine : u = t
    · rw [mine, setStage_self] at inside
      cases inside
      rw [setStage_owner, setOwner_self, mine]
    · rw [setStage_of_ne mine] at inside
      have owner := follows.owns u other rest inside
      have apart : program.lock other ≠ program.lock call := by
        intro same
        rw [same, free] at owner
        cases owner
      rw [setStage_owner, setOwner_of_ne apart]
      exact owner
  · intro p unowned
    by_cases here : p = program.lock call
    · rw [here, setStage_owner, setOwner_self] at unowned
      cases unowned
    · rw [setStage_owner, setOwner_of_ne here] at unowned
      exact follows.free p unowned
  · intro p u owner
    by_cases here : p = program.lock call
    · subst here
      rw [setStage_owner, setOwner_self] at owner
      cases owner
      refine ⟨call, program.body call, setStage_self, rfl, ?_⟩
      rw [follows.free _ free]
      rfl
    · rw [setStage_owner, setOwner_of_ne here] at owner
      obtain ⟨other, rest, inside, there, runs⟩ := follows.owned p u owner
      have apart : u ≠ t := by
        intro mine
        rw [mine, stands] at inside
        cases inside
      exact ⟨other, rest, (setStage_of_ne apart).trans inside, there, runs⟩

omit [DecidableEq ι] [DecidableEq θ] in
/-- A thread has one lock at a time. -/
theorem Follows.apart (follows : Follows program s a) {call : κ} {rest : Body σ ρ}
    (stands : s.threads t = .inside call rest) {p : ι} (different : p ≠ program.lock call) {u : θ}
    (owner : s.owner p = some u) : u ≠ t := by
  intro mine
  obtain ⟨other, remains, inside, there, -⟩ := follows.owned p u owner
  rw [mine, stands] at inside
  cases inside
  exact different there.symm

theorem Follows.work (follows : Follows program s a) {call : κ} {change : σ → σ} {next : σ → Body σ ρ}
    (stands : s.threads t = .inside call (.step change next)) :
    Follows program
      ((s.setValue (program.lock call) (change (s.values (program.lock call)))).setStage t
        (.inside call (next (s.values (program.lock call))))) a := by
  have holds := follows.owns t call _ stands
  constructor
  · exact seen_silent follows.threads (by rw [stands]; rfl)
  · intro u other rest inside
    by_cases mine : u = t
    · rw [mine, setStage_self] at inside
      cases inside
      rw [mine]
      exact holds
    · rw [setStage_of_ne mine] at inside
      exact follows.owns u other rest inside
  · intro p unowned
    have here : p ≠ program.lock call := by
      intro same
      rw [same, setStage_owner, setValue_owner, holds] at unowned
      cases unowned
    rw [setStage_values, setValue_of_ne here]
    exact follows.free p unowned
  · intro p u owner
    by_cases here : p = program.lock call
    · subst here
      obtain rfl := Option.some.inj (holds.symm.trans owner)
      obtain ⟨other, rest, inside, there, runs⟩ := follows.owned _ t owner
      rw [stands] at inside
      cases inside
      refine ⟨call, _, setStage_self, rfl, ?_⟩
      rw [← runs, setStage_values, setValue_self, Body.run]
    · obtain ⟨other, rest, inside, there, runs⟩ := follows.owned p u owner
      refine ⟨other, rest, (setStage_of_ne (follows.apart stands here owner)).trans inside, there, ?_⟩
      rw [setStage_values, setValue_of_ne here, runs]

theorem Follows.leave (follows : Follows program s a) {call : κ} {answer : ρ}
    (stands : s.threads t = .inside call (.done answer)) :
    (program.body call).run (a.values (program.lock call)) = (s.values (program.lock call), answer) ∧
      Follows program ((s.setOwner (program.lock call) none).setStage t (.leaving answer))
        ((a.setValue (program.lock call) (s.values (program.lock call))).setSeen t (.done answer)) := by
  have holds := follows.owns t call _ stands
  obtain ⟨same, rest, inside, there, runs⟩ := follows.owned _ t holds
  rw [stands] at inside
  cases inside
  refine ⟨runs.symm, seen_setStage follows.threads rfl, ?_, ?_, ?_⟩
  · intro u other rest inside
    obtain ⟨apart, inside⟩ := of_setStage (by simp) inside
    have owner := follows.owns u other rest inside
    have different : program.lock other ≠ program.lock call := by
      intro same
      rw [same, holds] at owner
      exact apart (Option.some.inj owner).symm
    rw [setStage_owner, setOwner_of_ne different]
    exact owner
  · intro p unowned
    by_cases here : p = program.lock call
    · rw [here, setSeen_values, objects_setValue_self]
      rfl
    · rw [setStage_owner, setOwner_of_ne here] at unowned
      rw [setSeen_values, objects_setValue_of_ne here]
      exact follows.free p unowned
  · intro p u owner
    by_cases here : p = program.lock call
    · rw [here, setStage_owner, setOwner_self] at owner
      cases owner
    · rw [setStage_owner, setOwner_of_ne here] at owner
      obtain ⟨other, rest, inside, there, runs⟩ := follows.owned p u owner
      refine ⟨other, rest, (setStage_of_ne (follows.apart stands here owner)).trans inside, there, ?_⟩
      rw [setSeen_values, objects_setValue_of_ne here]
      exact runs

theorem follows_step (runs : ∀ call value, (program.body call).run value = whole call value)
    (follows : Follows program s a) {e : Option (Event κ ρ θ)} (step : Stepwise program s e m) :
    ∃ b, Shows (AtOnce program.lock whole) a e.toList b ∧ Follows program m b := by
  cases step with
  | call stands =>
    refine ⟨_, .one (.call ?_), follows.outside rfl (by simp [stands]) (by simp)⟩
    rw [follows.threads, stands, Stage.seen]
  | enter stands free => exact ⟨a, .refl, follows.enter stands free⟩
  | work stands => exact ⟨a, .refl, follows.work stands⟩
  | leave stands =>
    obtain ⟨done, after⟩ := follows.leave stands
    rw [runs] at done
    refine ⟨_, .one (.work ?_ done), after⟩
    rw [follows.threads, stands, Stage.seen]
  | answer stands =>
    refine ⟨_, .one (.answer ?_), follows.outside rfl (by simp [stands]) (by simp)⟩
    rw [follows.threads, stands, Stage.seen]

omit [DecidableEq ι] [DecidableEq θ] in
theorem follows_start (values : ι → σ) :
    Follows program (.start values : Locks ι σ κ ρ θ) (.start values) :=
  ⟨fun _ => rfl, nofun, fun _ _ => rfl, nofun⟩

/-! From whole calls to steps: the thread takes its lock and all its steps at once. -/

theorem body_shows {call : κ} {rest : Body σ ρ} {value : σ} {answer : ρ}
    (stands : s.threads t = .inside call rest)
    (runs : rest.run (s.values (program.lock call)) = (value, answer)) :
    Shows (Stepwise program) s []
      (((s.setValue (program.lock call) value).setOwner (program.lock call) none).setStage t
        (.leaving answer)) := by
  induction rest generalizing s with
  | done other =>
    cases runs
    have same : s.setValue (program.lock call) (s.values (program.lock call)) = s := by
      simp [Locks.setValue]
    have left : Stepwise program s none
        ((s.setOwner (program.lock call) none).setStage t (.leaving answer)) := .leave stands
    rw [same]
    exact .one left
  | step change next ih =>
    have later := ih (s.values (program.lock call))
      (s := (s.setValue (program.lock call) (change (s.values (program.lock call)))).setStage t
        (.inside call (next (s.values (program.lock call))))) setStage_self
      (by rw [setStage_values, setValue_self]; exact runs)
    refine .silent (.work stands) ?_
    simpa [Locks.setValue, Locks.setOwner, Locks.setStage] using later

omit [DecidableEq ι] in
theorem locks_setSeen (a : Objects ι σ κ ρ θ) (t : θ) (seen : Seen κ ρ) :
    (a.setSeen t seen).locks = a.locks.setStage t seen.stage := by
  have threads : (fun u => (Function.update a.threads t seen u).stage : θ → Stage σ κ ρ) =
      Function.update (fun u => (a.threads u).stage) t seen.stage := by
    funext u
    by_cases mine : u = t
    · rw [mine, Function.update_self, Function.update_self]
    · rw [Function.update_of_ne mine, Function.update_of_ne mine]
  simp only [Objects.locks, Objects.setSeen, Locks.setStage, threads]

theorem locks_step (runs : ∀ call value, (program.body call).run value = whole call value)
    {e : Option (Event κ ρ θ)} (step : AtOnce program.lock whole a e b) :
    Shows (Stepwise program) a.locks e.toList b.locks := by
  cases step with
  | call stands =>
    rw [locks_setSeen]
    exact .one (.call (congrArg Seen.stage stands))
  | work stands done =>
    rename_i t call value answer
    have waits : a.locks.threads t = .waiting call := congrArg Seen.stage stands
    have later := body_shows
      (s := (a.locks.setOwner (program.lock call) (some t)).setStage t
        (.inside call (program.body call))) setStage_self ((runs _ _).trans done)
    rw [locks_setSeen]
    refine .silent (.enter waits rfl) ?_
    simpa [Locks.setValue, Locks.setOwner, Locks.setStage, Objects.locks, Objects.setValue,
      Seen.stage] using later
  | answer stands =>
    rw [locks_setSeen]
    exact .one (.answer (congrArg Seen.stage stands))

/-- From the same values, with all threads idle, the two systems show the same; and what the calls
leave behind, where no lock is held, is the same. -/
theorem shows_iff (runs : ∀ call value, (program.body call).run value = whole call value)
    (values after : ι → σ) (trace : List (Event κ ρ θ)) :
    ((∃ s, Shows (Stepwise program) (.start values) trace s) ↔
      ∃ a, Shows (AtOnce program.lock whole) (.start values) trace a) ∧
    ((∃ s, Shows (Stepwise program) (.start values) trace s ∧ s.owner = (fun _ => none) ∧
        s.values = after) ↔
      ∃ a, Shows (AtOnce program.lock whole) (.start values) trace a ∧ a.values = after) := by
  have together (s : Locks ι σ κ ρ θ) (shows : Shows (Stepwise program) (.start values) trace s) :
      ∃ a, Shows (AtOnce program.lock whole) (.start values) trace a ∧ Follows program s a :=
    shows_of_follows (R := Follows program) (fun _ _ _ _ follows step => follows_step runs follows step)
      (follows_start values) shows
  have apart (a : Objects ι σ κ ρ θ)
      (shows : Shows (AtOnce program.lock whole) (.start values) trace a) :
      Shows (Stepwise program) (.start values) trace a.locks := by
    obtain ⟨s, shows, rfl⟩ := shows_of_follows (R := fun a s => a.locks = s)
      (fun _ _ _ _ same step => ⟨_, same ▸ locks_step runs step, rfl⟩) rfl shows
    exact shows
  constructor
  · constructor
    · rintro ⟨s, shows⟩
      obtain ⟨a, done, -⟩ := together s shows
      exact ⟨a, done⟩
    · rintro ⟨a, shows⟩
      exact ⟨a.locks, apart a shows⟩
  · constructor
    · rintro ⟨s, shows, free, rfl⟩
      obtain ⟨a, done, follows⟩ := together s shows
      refine ⟨a, done, ?_⟩
      funext p
      exact follows.free p (congrFun free p)
    · rintro ⟨a, shows, rfl⟩
      exact ⟨a.locks, apart a shows, rfl, rfl⟩

end

end Secbuf.LockedCalls
