import Mathlib.Data.List.Forall2
import Secbuf.Calls

/-! Two calls side by side, each on a state of its own. They are paired when both have a value, or
both an error, the answers related and the states left behind related; or, where that is let
pass, when neither comes back. A client that asks for one call after another sees no more of
the two states than its calls do. -/

namespace Secbuf.PairedCalls
open Calls

/-- `V`, `E` and `R` relate the values, the errors and the states; `F` lets both calls fault. -/
inductive Paired {σ τ ε δ α β : Type} (F : Prop) (V : α → β → Prop) (E : ε → δ → Prop)
    (R : σ → τ → Prop) : Outcome σ ε α → Outcome τ δ β → Prop
  | ok {a : α} {b : β} {s : σ} {t : τ} (values : V a b) (states : R s t) :
      Paired F V E R (.ok a s) (.ok b t)
  | err {e : ε} {f : δ} {s : σ} {t : τ} (errors : E e f) (states : R s t) :
      Paired F V E R (.err e s) (.err f t)
  | fault (passes : F) (reason : Fault) : Paired F V E R (.fault reason) (.fault reason)

section
variable {σ τ ε δ α β α' β' : Type} {F : Prop} {V : α → β → Prop} {W : α' → β' → Prop} {E : ε → δ → Prop}
  {R : σ → τ → Prop} {s : σ} {t : τ}

theorem Paired.map {first : Call σ ε α} {second : Call τ δ β} {read : α → α'} {read' : β → β'}
    (paired : Paired F V E R (first s) (second t)) (reads : ∀ a b, V a b → W (read a) (read' b)) :
    Paired F W E R (first.map read s) (second.map read' t) := by
  unfold Call.map
  generalize first s = answered at paired ⊢
  generalize second t = answered' at paired ⊢
  cases paired with
  | ok values states => exact .ok (reads _ _ values) states
  | err errors states => exact .err errors states
  | fault passes reason => exact .fault passes reason

theorem Paired.bind {first : Call σ ε α} {second : Call τ δ β} {next : α → Call σ ε α'}
    {next' : β → Call τ δ β'} (paired : Paired F V E R (first s) (second t))
    (later : ∀ a b s' t', V a b → R s' t' → Paired F W E R (next a s') (next' b t')) :
    Paired F W E R ((first >>= next) s) ((second >>= next') t) := by
  rw [bind_apply, bind_apply]
  generalize first s = answered at paired ⊢
  generalize second t = answered' at paired ⊢
  cases paired with
  | ok values states => exact later _ _ _ _ values states
  | err errors states => exact .err errors states
  | fault passes reason => exact .fault passes reason

theorem Paired.mono {F' : Prop} {V' : α → β → Prop} {E' : ε → δ → Prop} {R' : σ → τ → Prop}
    {first : Outcome σ ε α} {second : Outcome τ δ β} (paired : Paired F V E R first second)
    (passes : F → F') (values : ∀ a b, V a b → V' a b) (errors : ∀ e f, E e f → E' e f)
    (states : ∀ s t, R s t → R' s t) : Paired F' V' E' R' first second := by
  cases paired with
  | ok value related => exact .ok (values _ _ value) (states _ _ related)
  | err error related => exact .err (errors _ _ error) (states _ _ related)
  | fault pass reason => exact .fault (passes pass) reason

/-- What is known of the two states left behind may be added to the pairing. -/
theorem Paired.refine {R' : σ → τ → Prop} {first : Outcome σ ε α} {second : Outcome τ δ β}
    (paired : Paired F V E R first second)
    (more : ∀ s t, first.state? = some s → second.state? = some t → R s t → R' s t) :
    Paired F V E R' first second := by
  cases paired with
  | ok value related => exact .ok value (more _ _ rfl rfl related)
  | err error related => exact .err error (more _ _ rfl rfl related)
  | fault pass reason => exact .fault pass reason

theorem Paired.state?_eq {first : Outcome σ ε α} {second : Outcome σ δ β} {R : σ → σ → Prop}
    (paired : Paired F V E R first second) (equal : ∀ s t, R s t → s = t) :
    first.state? = second.state? := by
  cases paired with
  | ok values states => exact congrArg some (equal _ _ states)
  | err errors states => exact congrArg some (equal _ _ states)
  | fault passes reason => rfl

theorem Paired.comes_back {first : Outcome σ ε α} {second : Outcome τ δ β}
    (paired : Paired False V E R first second) :
    ∃ s t, first.state? = some s ∧ second.state? = some t ∧ R s t := by
  cases paired with
  | ok values states => exact ⟨_, _, rfl, rfl, states⟩
  | err errors states => exact ⟨_, _, rfl, rfl, states⟩
  | fault passes reason => exact passes.elim

theorem Paired.of_ok {a : α} {second : Outcome τ δ β}
    (paired : Paired F V E R (.ok a s : Outcome σ ε α) second) :
    ∃ b t, second = .ok b t ∧ V a b ∧ R s t := by
  cases paired with
  | ok values states => exact ⟨_, _, rfl, values, states⟩

theorem Paired.ok_iff {first : Outcome σ ε α} {second : Outcome τ δ β}
    (paired : Paired F V E R first second) :
    (∃ a s, first = .ok a s) ↔ ∃ b t, second = .ok b t := by
  cases paired <;> simp

end

/-! A change of the state that a call does not notice. -/

section
variable {σ ε α β : Type} {f : σ → σ} {s : σ}

def mapState (f : σ → σ) : Outcome σ ε α → Outcome σ ε α
  | .ok value t => .ok value (f t)
  | .err error t => .err error (f t)
  | .fault reason => .fault reason

def Commutes (f : σ → σ) (call : Call σ ε α) (s : σ) : Prop := call (f s) = mapState f (call s)

theorem Commutes.pure (value : α) : Commutes f (Pure.pure value : Call σ ε α) s := rfl

theorem Commutes.map {call : Call σ ε α} (commutes : Commutes f call s) (read : α → β) :
    Commutes f (call.map read) s := by
  unfold Commutes Call.map at *
  rw [commutes]
  cases call s <;> rfl

theorem Commutes.bind {first : Call σ ε α} {next : α → Call σ ε β} (commutes : Commutes f first s)
    (later : ∀ value t, first s = .ok value t → Commutes f (next value) t) :
    Commutes f (first >>= next) s := by
  unfold Commutes at *
  rw [bind_apply, bind_apply, commutes]
  cases run : first s with
  | ok value t => exact later value t run
  | err error t => rfl
  | fault reason => rfl

theorem Commutes.attempt {run : σ → Except Fault (α × σ)}
    (same : run (f s) = (run s).map fun (value, t) => (value, f t)) :
    Commutes f (Call.attempt run : Call σ ε α) s := by
  unfold Commutes Call.attempt
  rw [same]
  cases run s <;> rfl

theorem Commutes.paired {call : Call σ ε α} {I : σ → Prop} (commutes : Commutes f call s)
    (keeps : ∀ t, (call s).state? = some t → I t) :
    Paired True Eq Eq (fun t u => I t ∧ u = f t) (call s) (call (f s)) := by
  unfold Commutes at commutes
  rw [commutes]
  cases run : call s with
  | ok value t => exact .ok rfl ⟨keeps t (by rw [run]; rfl), rfl⟩
  | err error t => exact .err rfl ⟨keeps t (by rw [run]; rfl), rfl⟩
  | fault reason => exact .fault trivial reason

end

/-! Two runs of one script. -/

section
variable {σ τ ε δ α β Op : Type}

/-- What a script is answered, call by call, with the state after each; a call that does not come
back ends it. -/
def trace (call : Op → Call σ ε α) : List Op → σ → List (Outcome σ ε α)
  | [], _ => []
  | op :: rest, s => call op s ::
    match (call op s).state? with
    | some t => trace call rest t
    | none => []

theorem trace_paired {F : Prop} {V : α → β → Prop} {E : ε → δ → Prop} {R : σ → τ → Prop}
    {call : Op → Call σ ε α} {call' : Op → Call τ δ β}
    (one : ∀ op s t, R s t → Paired F V E R (call op s) (call' op t)) (ops : List Op) {s : σ} {t : τ}
    (related : R s t) : List.Forall₂ (Paired F V E R) (trace call ops s) (trace call' ops t) := by
  induction ops generalizing s t with
  | nil => exact .nil
  | cons op rest ih =>
    have paired := one op s t related
    simp only [trace]
    apply List.Forall₂.cons paired
    generalize call op s = answered at paired ⊢
    generalize call' op t = answered' at paired ⊢
    cases paired with
    | ok values states => exact ih states
    | err errors states => exact ih states
    | fault passes reason => exact .nil

end

/-- A program over calls: what it asks for next may depend on every answer it has had. -/
inductive Client (Op Answer : Type) where
  | done
  | ask (op : Op) (next : Answer → Client Op Answer)

section
variable {σ ε α Op : Type} (call : Op → Call σ ε α)

/-- The answers a client is given, an error among them, and the state it leaves; nothing when a
call does not come back. -/
def converse : Client Op (Except ε α) → σ → Option (List (Except ε α) × σ)
  | .done, s => some ([], s)
  | .ask op next, s =>
    match call op s with
    | .ok value t => (converse (next (.ok value)) t).map fun (rest, u) => (.ok value :: rest, u)
    | .err error t => (converse (next (.error error)) t).map fun (rest, u) => (.error error :: rest, u)
    | .fault _ => none

def Asks (allowed : σ → Op → Prop) : Client Op (Except ε α) → σ → Prop
  | .done, _ => True
  | .ask op next, s => allowed s op ∧
    match call op s with
    | .ok value t => Asks allowed (next (.ok value)) t
    | .err error t => Asks allowed (next (.error error)) t
    | .fault _ => True

/-- What a client is answered, call by call, with the state after each; a call that does not come
back ends it. -/
def transcript : Client Op (Except ε α) → σ → List (Outcome σ ε α)
  | .done, _ => []
  | .ask op next, s => call op s ::
    match call op s with
    | .ok value t => transcript (next (.ok value)) t
    | .err error t => transcript (next (.error error)) t
    | .fault _ => []

theorem asks_ask {allowed : σ → Op → Prop} {op : Op} {next : Except ε α → Client Op (Except ε α)} {s : σ} :
    Asks call allowed (.ask op next) s ↔ allowed s op ∧
      (∀ value t, call op s = .ok value t → Asks call allowed (next (.ok value)) t) ∧
      ∀ error t, call op s = .err error t → Asks call allowed (next (.error error)) t := by
  simp only [Asks]
  cases call op s <;> simp

theorem asks_and {allowed also : σ → Op → Prop} (client : Client Op (Except ε α)) {s : σ}
    (first : Asks call allowed client s) (second : Asks call also client s) :
    Asks call (fun t op => allowed t op ∧ also t op) client s := by
  induction client generalizing s with
  | done => trivial
  | ask op next ih =>
    rw [asks_ask] at first second ⊢
    apply And.intro ⟨first.1, second.1⟩
    constructor
    · intro value t answered
      exact ih _ (first.2.1 value t answered) (second.2.1 value t answered)
    · intro error t answered
      exact ih _ (first.2.2 error t answered) (second.2.2 error t answered)

theorem asks_keeps {I : σ → Prop} {allowed also : σ → Op → Prop}
    (one : ∀ t op, I t → allowed t op → also t op ∧ ∀ u, (call op t).state? = some u → I u)
    (client : Client Op (Except ε α)) {s : σ} (holds : I s) (asks : Asks call allowed client s) :
    Asks call also client s := by
  induction client generalizing s with
  | done => trivial
  | ask op next ih =>
    rw [asks_ask] at asks ⊢
    obtain ⟨here, kept⟩ := one s op holds asks.1
    apply And.intro here
    constructor
    · intro value t answered
      exact ih _ (kept t (by rw [answered]; rfl)) (asks.2.1 value t answered)
    · intro error t answered
      exact ih _ (kept t (by rw [answered]; rfl)) (asks.2.2 error t answered)

/-- Two readings of one language: where allowed calls agree exactly in a kind of case, a client of
them is answered the same exactly when it keeps to that kind. -/
theorem transcript_eq_iff {call' : Op → Call σ ε α} {I : σ → Prop} {allowed good : σ → Op → Prop}
    (agree : ∀ t op, I t → allowed t op → (call op t = call' op t ↔ good t op))
    (keeps : ∀ t op u, I t → good t op → (call op t).state? = some u → I u)
    (client : Client Op (Except ε α)) {s : σ} (holds : I s) (asks : Asks call allowed client s) :
    transcript call client s = transcript call' client s ↔ Asks call good client s := by
  induction client generalizing s with
  | done => simp [transcript, Asks]
  | ask op next ih =>
    rw [asks_ask] at asks
    have here := agree s op holds asks.1
    simp only [transcript, Asks, List.cons.injEq, here]
    apply and_congr_right
    intro same
    rw [← here.mpr same]
    have kept := keeps s op
    cases answered : call op s with
    | ok value t => exact ih _ (kept t holds same (by rw [answered]; rfl)) (asks.2.1 value t answered)
    | err error t => exact ih _ (kept t holds same (by rw [answered]; rfl)) (asks.2.2 error t answered)
    | fault reason => exact iff_of_true rfl trivial

theorem asks_last {allowed : σ → Op → Prop} {op : Op} {s : σ} (here : allowed s op) :
    Asks call allowed (.ask op fun _ => .done) s := by
  simp only [Asks]
  refine ⟨here, ?_⟩
  cases call op s <;> trivial

/-- Where each allowed call answers alike on related states, so does every client of them. -/
theorem converse_alike {R : σ → σ → Prop} {allowed : σ → Op → Prop}
    (alike : ∀ op s t, R s t → allowed s op → Paired False Eq Eq R (call op s) (call op t))
    (client : Client Op (Except ε α)) {s t : σ} (related : R s t) (asks : Asks call allowed client s) :
    ∃ answers s' t', converse call client s = some (answers, s') ∧
      converse call client t = some (answers, t') ∧ R s' t' := by
  induction client generalizing s t with
  | done => exact ⟨[], s, t, rfl, rfl, related⟩
  | ask op next ih =>
    simp only [Asks] at asks
    obtain ⟨here, later⟩ := asks
    have paired := alike op s t related here
    simp only [converse]
    generalize call op s = answered at paired later ⊢
    generalize call op t = answered' at paired ⊢
    cases paired with
    | ok values states =>
      cases values
      obtain ⟨answers, s', t', first, second, related'⟩ := ih _ states later
      exact ⟨_, s', t', congrArg (Option.map _) first, congrArg (Option.map _) second, related'⟩
    | err errors states =>
      cases errors
      obtain ⟨answers, s', t', first, second, related'⟩ := ih _ states later
      exact ⟨_, s', t', congrArg (Option.map _) first, congrArg (Option.map _) second, related'⟩
    | fault passes reason => exact passes.elim

end

end Secbuf.PairedCalls
