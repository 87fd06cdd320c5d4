import Mathlib.Logic.Relation

/-! Calls on a mutable receiver. A call reads a state and either returns a value, returns an
error, or does not come back at all; the first two leave a state behind, since an error
may be reported after part of the work is done. Nothing here depends on what the state is. -/

namespace Secbuf.Calls

/-- Why a call did not come back: the program stopped itself, or it left the language. -/
inductive Fault where
  | panic
  | undefinedBehaviour
  deriving DecidableEq, Repr

inductive Outcome (σ ε α : Type) where
  | ok (value : α) (next : σ)
  | err (error : ε) (next : σ)
  | fault (reason : Fault)
  deriving DecidableEq, Repr

section
variable {σ ε α β : Type}

def Outcome.state? : Outcome σ ε α → Option σ
  | .ok _ next => some next
  | .err _ next => some next
  | .fault _ => none

@[simp] theorem state?_ok (value : α) (next : σ) :
    (Outcome.ok value next : Outcome σ ε α).state? = some next := rfl
@[simp] theorem state?_err (error : ε) (next : σ) :
    (Outcome.err error next : Outcome σ ε α).state? = some next := rfl
@[simp] theorem state?_fault (reason : Fault) :
    (Outcome.fault reason : Outcome σ ε α).state? = none := rfl

def Outcome.error? : Outcome σ ε α → Option ε
  | .err error _ => some error
  | _ => none

@[simp] theorem error?_ok (value : α) (next : σ) :
    (Outcome.ok value next : Outcome σ ε α).error? = none := rfl
@[simp] theorem error?_fault (reason : Fault) :
    (Outcome.fault reason : Outcome σ ε α).error? = none := rfl

theorem state?_eq_none {outcome : Outcome σ ε α} :
    outcome.state? = none ↔ ∃ reason, outcome = .fault reason := by
  cases outcome <;> simp
end

def Call (σ ε α : Type) := σ → Outcome σ ε α

section
variable {σ ε α β : Type}

def Call.pure (value : α) : Call σ ε α := fun s => .ok value s

/-- An error ends the sequence but keeps the state it was reported in. -/
def Call.bind (first : Call σ ε α) (next : α → Call σ ε β) : Call σ ε β := fun s =>
  match first s with
  | .ok value s' => next value s'
  | .err error s' => .err error s'
  | .fault reason => .fault reason

def Call.raise (error : ε) : Call σ ε α := fun s => .err error s

def Call.modify (change : σ → σ) : Call σ ε Unit := fun s => .ok () (change s)

def Call.map (read : α → β) (call : Call σ ε α) : Call σ ε β := fun s =>
  match call s with
  | .ok value s' => .ok (read value) s'
  | .err error s' => .err error s'
  | .fault reason => .fault reason

instance : Monad (Call σ ε) where
  pure := Call.pure
  bind := Call.bind

@[simp] theorem pure_apply (value : α) (s : σ) :
    (Pure.pure value : Call σ ε α) s = .ok value s := rfl

@[simp] theorem raise_apply (error : ε) (s : σ) :
    (Call.raise error : Call σ ε α) s = .err error s := rfl

@[simp] theorem modify_apply (change : σ → σ) (s : σ) :
    (Call.modify change : Call σ ε Unit) s = .ok () (change s) := rfl

@[simp] theorem state?_map (read : α → β) (call : Call σ ε α) (s : σ) :
    (call.map read s).state? = (call s).state? := by
  unfold Call.map
  cases call s <;> rfl

theorem map_ok {read : α → β} {call : Call σ ε α} {s t : σ} {value : β} :
    call.map read s = .ok value t ↔ ∃ inner, call s = .ok inner t ∧ read inner = value := by
  unfold Call.map
  cases run : call s with
  | ok inner s' =>
    constructor
    · intro done
      cases done
      exact ⟨inner, rfl, rfl⟩
    · rintro ⟨_, same, rfl⟩
      cases same
      rfl
  | err error s' => simp
  | fault reason => simp

theorem map_fault {read : α → β} {call : Call σ ε α} {s : σ} {reason : Fault} :
    call.map read s = .fault reason ↔ call s = .fault reason := by
  unfold Call.map
  cases call s <;> simp

theorem bind_apply (first : Call σ ε α) (next : α → Call σ ε β) (s : σ) :
    (first >>= next) s = match first s with
      | .ok value s' => next value s'
      | .err error s' => .err error s'
      | .fault reason => .fault reason := rfl

theorem bind_of_ok {first : Call σ ε α} {next : α → Call σ ε β} {s s' : σ} {value : α}
    (done : first s = .ok value s') : (first >>= next) s = next value s' := by
  rw [bind_apply, done]

theorem bind_of_err {first : Call σ ε α} {next : α → Call σ ε β} {s s' : σ} {error : ε}
    (failed : first s = .err error s') : (first >>= next) s = .err error s' := by
  rw [bind_apply, failed]

theorem bind_ok {first : Call σ ε α} {next : α → Call σ ε β} {s t : σ} {value : β} :
    (first >>= next) s = .ok value t ↔
      ∃ middle s', first s = .ok middle s' ∧ next middle s' = .ok value t := by
  rw [bind_apply]
  cases run : first s with
  | ok middle s' =>
    constructor
    · intro done
      exact ⟨middle, s', rfl, done⟩
    · rintro ⟨_, _, same, done⟩
      cases same
      exact done
  | err error s' => simp
  | fault reason => simp

theorem bind_err {first : Call σ ε α} {next : α → Call σ ε β} {s t : σ} {error : ε} :
    (first >>= next) s = .err error t ↔
      first s = .err error t ∨ ∃ middle s', first s = .ok middle s' ∧ next middle s' = .err error t := by
  rw [bind_apply]
  cases run : first s with
  | ok middle s' =>
    constructor
    · intro failed
      exact Or.inr ⟨middle, s', rfl, failed⟩
    · rintro (failed | ⟨_, _, same, failed⟩)
      · cases failed
      · cases same
        exact failed
  | err other s' => simp
  | fault reason => simp

theorem bind_state? {first : Call σ ε α} {next : α → Call σ ε β} {s t : σ}
    (left : ((first >>= next) s).state? = some t) :
    (∃ error, first s = .err error t) ∨
      ∃ middle s', first s = .ok middle s' ∧ (next middle s').state? = some t := by
  rw [bind_apply] at left
  cases run : first s with
  | ok middle s' =>
    rw [run] at left
    exact Or.inr ⟨middle, s', rfl, left⟩
  | err error s' =>
    rw [run] at left
    cases left
    exact Or.inl ⟨error, rfl⟩
  | fault reason =>
    rw [run] at left
    cases left

/-- `I` survives the call whenever the call comes back, with or without an error. -/
def Call.Keeps (I : σ → Prop) (call : Call σ ε α) : Prop :=
  ∀ s t, I s → (call s).state? = some t → I t

theorem Call.Keeps.pure (I : σ → Prop) (value : α) :
    (Pure.pure value : Call σ ε α).Keeps I := by
  intro s t holds left
  simp only [pure_apply, state?_ok, Option.some.injEq] at left
  exact left ▸ holds

theorem Call.Keeps.bind {I : σ → Prop} {first : Call σ ε α} {next : α → Call σ ε β}
    (keepsFirst : first.Keeps I) (keepsNext : ∀ value, (next value).Keeps I) :
    (first >>= next).Keeps I := by
  intro s t holds left
  rw [bind_apply] at left
  cases run : first s with
  | ok value s' =>
    rw [run] at left
    exact keepsNext value s' t (keepsFirst s s' holds (by rw [run]; rfl)) left
  | err error s' =>
    rw [run] at left
    exact keepsFirst s t holds (by rw [run]; exact left)
  | fault reason =>
    rw [run] at left
    cases left

def Outcome.Spares (outcome : Outcome σ ε α) (s : σ) : Prop :=
  ∀ error t, outcome = .err error t → t = s

def Call.Spares (call : Call σ ε α) (s : σ) : Prop := (call s).Spares s

theorem spares_ok {value : α} {s t : σ} : (Outcome.ok value t : Outcome σ ε α).Spares s := by
  intro error u failed
  cases failed

theorem spares_err {error : ε} {s : σ} : (Outcome.err error s : Outcome σ ε α).Spares s := by
  intro other t failed
  cases failed
  rfl

theorem spares_fault {reason : Fault} {s : σ} : (Outcome.fault reason : Outcome σ ε α).Spares s := by
  intro error t failed
  cases failed

theorem spares_ite {p : Prop} [Decidable p] {first second : Outcome σ ε α} {s : σ}
    (yes : first.Spares s) (no : second.Spares s) : (if p then first else second).Spares s := by
  by_cases met : p
  · rw [if_pos met]
    exact yes
  · rw [if_neg met]
    exact no

@[simp] theorem spares_map {read : α → β} {call : Call σ ε α} {s : σ} :
    (call.map read).Spares s ↔ call.Spares s := by
  unfold Call.Spares Outcome.Spares Call.map
  cases call s <;> simp

def Call.attempt (run : σ → Except Fault (α × σ)) : Call σ ε α := fun s =>
  match run s with
  | .ok (value, s') => .ok value s'
  | .error reason => .fault reason

theorem attempt_ok {run : σ → Except Fault (α × σ)} {s s' : σ} {value : α}
    (done : run s = .ok (value, s')) : (Call.attempt run : Call σ ε α) s = .ok value s' := by
  unfold Call.attempt
  rw [done]

theorem attempt_state? {run : σ → Except Fault (α × σ)} {s t : σ} :
    (Call.attempt run s : Outcome σ ε α).state? = some t ↔ ∃ value, run s = .ok (value, t) := by
  unfold Call.attempt
  cases ran : run s with
  | ok result => simp [Prod.ext_iff, eq_comm]
  | error reason => simp

theorem attempt_err {run : σ → Except Fault (α × σ)} {s t : σ} {error : ε} :
    (Call.attempt run s : Outcome σ ε α) ≠ .err error t := by
  unfold Call.attempt
  cases run s <;> simp

theorem ok_bind {τ : Type} (value : α) (next : α → Except τ β) :
    (Except.ok value >>= next) = next value := rfl

theorem ok_of_bind {τ : Type} {first : Except τ α} {next : α → Except τ β} {value : β}
    (done : (first >>= next) = .ok value) : ∃ middle, first = .ok middle ∧ next middle = .ok value := by
  cases first with
  | ok middle => exact ⟨middle, rfl, done⟩
  | error reason => cases done

theorem attempt_state {value : σ → Except Fault β} {place : σ → β → σ} {s t : σ} :
    ((Call.attempt fun s => do
      let made ← value s
      .ok ((), place s made) : Call σ ε Unit) s).state? = some t ↔
      ∃ made, value s = .ok made ∧ place s made = t := by
  rw [attempt_state?]
  constructor
  · rintro ⟨_, done⟩
    obtain ⟨made, ready, done⟩ := ok_of_bind done
    cases done
    exact ⟨made, ready, rfl⟩
  · rintro ⟨made, ready, rfl⟩
    exact ⟨(), by rw [ready, ok_bind]⟩

end

/-! A program takes steps named by actions. Its runs are the reflexive transitive closure
of its steps; an invariant is proved from one step. -/

section
variable {σ α : Type}

def Moves (step : σ → α → σ → Prop) (s t : σ) : Prop := ∃ action, step s action t

abbrev Reaches (step : σ → α → σ → Prop) : σ → σ → Prop :=
  Relation.ReflTransGen (Moves step)

/-- The same system, with the steps outside `allowed` taken away. -/
def Guarded (allowed : σ → α → Prop) (step : σ → α → σ → Prop) : σ → α → σ → Prop :=
  fun s action t => allowed s action ∧ step s action t

theorem Reaches.keeps {step : σ → α → σ → Prop} {I : σ → Prop} {s t : σ}
    (run : Reaches step s t) (holds : I s)
    (one : ∀ s action t, I s → step s action t → I t) : I t := by
  induction run with
  | refl => exact holds
  | tail _ move ih =>
    obtain ⟨action, taken⟩ := move
    exact one _ action _ ih taken

theorem Reaches.of_steps {step wider : σ → α → σ → Prop} {s t : σ} (run : Reaches step s t)
    (more : ∀ s action t, step s action t → wider s action t) : Reaches wider s t := by
  induction run with
  | refl => exact .refl
  | tail _ move ih =>
    obtain ⟨action, taken⟩ := move
    exact ih.tail ⟨action, more _ action _ taken⟩

/-- A scripted run of a system whose steps are computed. -/
def exec (next : σ → α → Option σ) (s : σ) : List α → Option σ
  | [] => some s
  | action :: rest => (next s action).bind fun t => exec next t rest

theorem Reaches.of_exec {next : σ → α → Option σ} {s t : σ} {actions : List α}
    (script : exec next s actions = some t) :
    Reaches (fun s action t => next s action = some t) s t := by
  induction actions generalizing s with
  | nil =>
    simp only [exec, Option.some.injEq] at script
    exact script ▸ .refl
  | cons action rest ih =>
    simp only [exec, Option.bind_eq_some_iff] at script
    obtain ⟨middle, taken, later⟩ := script
    exact (ih later).head ⟨action, taken⟩

def total (next : σ → α → Option σ) (weight : σ → α → Nat) (s : σ) : List α → Nat
  | [] => 0
  | action :: rest => weight s action +
    match next s action with
    | some t => total next weight t rest
    | none => 0

theorem total_add (next : σ → α → Option σ) (w v : σ → α → Nat) (s : σ) (actions : List α) :
    total next (fun s action => w s action + v s action) s actions =
      total next w s actions + total next v s actions := by
  induction actions generalizing s with
  | nil => rfl
  | cons action rest ih =>
    cases went : next s action with
    | none => simp only [total, went, Nat.add_zero]
    | some t =>
      simp only [total, went]
      rw [ih, Nat.add_add_add_comm]

theorem exec_adds {next : σ → α → Option σ} {w v : σ → α → Nat} {I : Nat → Nat → σ → Prop}
    (one : ∀ n m s action t, I n m s → next s action = some t →
      I (n + w s action) (m + v s action) t)
    {actions : List α} {n m : Nat} {s t : σ} (holds : I n m s)
    (script : exec next s actions = some t) :
    I (n + total next w s actions) (m + total next v s actions) t := by
  induction actions generalizing n m s with
  | nil =>
    simp only [exec, Option.some.injEq] at script
    exact script ▸ holds
  | cons action rest ih =>
    simp only [exec, Option.bind_eq_some_iff] at script
    obtain ⟨middle, taken, later⟩ := script
    have after := ih (one n m s action middle holds taken) later
    simp only [total, taken]
    rw [← Nat.add_assoc, ← Nat.add_assoc]
    exact after

/-- Every action of a scripted run is allowed in the state it is taken in. -/
def Meets (next : σ → α → Option σ) (allowed : σ → α → Prop) (s : σ) : List α → Prop
  | [] => True
  | action :: rest => allowed s action ∧
    match next s action with
    | some t => Meets next allowed t rest
    | none => True

instance decidableMeets (next : σ → α → Option σ) (allowed : σ → α → Prop)
    [∀ s action, Decidable (allowed s action)] (s : σ) (actions : List α) :
    Decidable (Meets next allowed s actions) :=
  match actions with
  | [] => .isTrue trivial
  | action :: rest =>
    have : Decidable (match next s action with
        | some t => Meets next allowed t rest
        | none => True) :=
      match next s action with
      | some t => decidableMeets next allowed t rest
      | none => .isTrue trivial
    inferInstanceAs (Decidable (_ ∧ _))

theorem Meets.of_all {next : σ → α → Option σ} {allowed : σ → α → Prop} {actions : List α}
    (all : ∀ s, ∀ action ∈ actions, allowed s action) (s : σ) : Meets next allowed s actions := by
  induction actions generalizing s with
  | nil => trivial
  | cons action rest ih =>
    refine ⟨all s action List.mem_cons_self, ?_⟩
    cases next s action with
    | none => trivial
    | some t => exact ih (fun s other member => all s other (List.mem_cons_of_mem _ member)) t

theorem Reaches.of_script {next : σ → α → Option σ} {allowed : σ → α → Prop} {s t : σ}
    {actions : List α} (script : exec next s actions = some t)
    (meets : Meets next allowed s actions) :
    Reaches (Guarded allowed fun s action t => next s action = some t) s t := by
  induction actions generalizing s with
  | nil =>
    simp only [exec, Option.some.injEq] at script
    exact script ▸ .refl
  | cons action rest ih =>
    simp only [exec, Option.bind_eq_some_iff] at script
    obtain ⟨middle, taken, later⟩ := script
    obtain ⟨here, onward⟩ := meets
    simp only [taken] at onward
    exact (ih later onward).head ⟨action, here, taken⟩

theorem exec_keeps {next : σ → α → Option σ} {allowed : α → Prop} {I : σ → Prop}
    (keeps : ∀ s action t, allowed action → I s → next s action = some t → I t) {actions : List α}
    (only : ∀ action ∈ actions, allowed action) {s t : σ} (holds : I s)
    (script : exec next s actions = some t) : I t := by
  have guarded := Reaches.of_script script (Meets.of_all (fun _ => only) s)
  exact guarded.keeps holds fun _ _ _ here taken => keeps _ _ _ taken.1 here taken.2

/-- What one of a script's actions brings about, and the others leave so, holds at its end. -/
theorem exec_since {next : σ → α → Option σ} {allowed : α → Prop} {I P : σ → Prop} {call : α}
    (keeps : ∀ s action t, allowed action → I s → next s action = some t → I t)
    (sets : ∀ s t, I s → next s call = some t → P t)
    (stays : ∀ s action t, allowed action → I s → P s → next s action = some t → P t)
    {actions : List α} (only : ∀ action ∈ actions, allowed action) (called : call ∈ actions) {s t : σ}
    (holds : I s) (script : exec next s actions = some t) : P t := by
  induction actions generalizing s with
  | nil => exact absurd called List.not_mem_nil
  | cons action rest ih =>
    simp only [exec, Option.bind_eq_some_iff] at script
    obtain ⟨middle, taken, later⟩ := script
    have here := only action List.mem_cons_self
    have onward : ∀ other ∈ rest, allowed other :=
      fun other member => only other (List.mem_cons_of_mem _ member)
    have kept := keeps s action middle here holds taken
    rcases List.mem_cons.mp called with rfl | called
    · have both : I t ∧ P t := by
        apply exec_keeps _ onward ⟨kept, sets s middle holds taken⟩ later
        intro s action u may before step
        exact ⟨keeps s action u may before.1 step, stays s action u may before.1 before.2 step⟩
      exact both.2
    · exact ih onward called kept later

def gathered {β : Type} (next : σ → α → Option σ) (yield : σ → α → List β) (s : σ) : List α → List β
  | [] => []
  | action :: rest => yield s action ++
    match next s action with
    | some t => gathered next yield t rest
    | none => []

/-- A relation of what two yields have given so far to the state, proved from one allowed step. -/
theorem exec_gathers {β : Type} {next : σ → α → Option σ} {allowed : σ → α → Prop}
    {w v : σ → α → List β} {I : List β → List β → σ → Prop}
    (one : ∀ n m s action t, I n m s → allowed s action → next s action = some t →
      I (n ++ w s action) (m ++ v s action) t)
    {actions : List α} {n m : List β} {s t : σ} (holds : I n m s)
    (script : exec next s actions = some t) (meets : Meets next allowed s actions) :
    I (n ++ gathered next w s actions) (m ++ gathered next v s actions) t := by
  induction actions generalizing n m s with
  | nil =>
    simp only [exec, Option.some.injEq] at script
    rw [gathered, gathered, List.append_nil, List.append_nil]
    exact script ▸ holds
  | cons action rest ih =>
    simp only [exec, Option.bind_eq_some_iff] at script
    obtain ⟨middle, taken, later⟩ := script
    obtain ⟨here, onward⟩ := meets
    simp only [taken] at onward
    have after := ih (one n m s action middle holds here taken) later onward
    simp only [gathered, taken]
    rw [← List.append_assoc, ← List.append_assoc]
    exact after

def peak (next : σ → α → Option σ) (measure : σ → Nat) (s : σ) : List α → Nat
  | [] => 0
  | action :: rest =>
    match next s action with
    | some t => max (measure t) (peak next measure t rest)
    | none => 0

theorem exec_peaks {next : σ → α → Option σ} {allowed : σ → α → Prop} {measure : σ → Nat}
    {I : Nat → σ → Prop}
    (one : ∀ m s action t, I m s → allowed s action → next s action = some t → I (max m (measure t)) t)
    {actions : List α} {m : Nat} {s t : σ} (holds : I m s) (script : exec next s actions = some t)
    (meets : Meets next allowed s actions) : I (max m (peak next measure s actions)) t := by
  induction actions generalizing m s with
  | nil =>
    simp only [exec, Option.some.injEq] at script
    rw [peak, Nat.max_zero]
    exact script ▸ holds
  | cons action rest ih =>
    simp only [exec, Option.bind_eq_some_iff] at script
    obtain ⟨middle, taken, later⟩ := script
    obtain ⟨here, onward⟩ := meets
    simp only [taken] at onward
    have after := ih (one m s action middle holds here taken) later onward
    simp only [peak, taken]
    rwa [Nat.max_assoc] at after

end

end Secbuf.Calls
