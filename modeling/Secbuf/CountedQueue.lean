import Secbuf.Calls
import Secbuf.Storage
import Secbuf.Tally

/-! A queue with its length in a counter beside it. A push queues its item first and counts it
after, a pop takes its item first and counts it out after, and any thread may take its next step
in between. The counter differs from the queue by the calls between their two steps, until it
passes below zero. -/

namespace Secbuf.CountedQueue
open Calls Storage Tally

/-- The queue and, apart from it, its approximate length. -/
structure LockFreeQueue (α : Type) where
  items : List α
  size : Nat
  deriving DecidableEq

def usizePred (n : Nat) : Nat := if n = 0 then 2 ^ 64 - 1 else n - 1

namespace LockFreeQueue
variable {α : Type}

def new : LockFreeQueue α := ⟨[], 0⟩

/-- The first half of `push`: the item is in the queue and not yet counted. -/
def enqueue (queue : LockFreeQueue α) (item : α) : LockFreeQueue α :=
  { queue with items := queue.items ++ [item] }

def countUp (queue : LockFreeQueue α) : LockFreeQueue α :=
  { queue with size := usizeAdd queue.size 1 }

def dequeue (queue : LockFreeQueue α) (rest : List α) : LockFreeQueue α :=
  { queue with items := rest }

def countDown (queue : LockFreeQueue α) : LockFreeQueue α :=
  { queue with size := usizePred queue.size }

/-- `len()`, the counter and not the queue. -/
def len (queue : LockFreeQueue α) : Nat := queue.size

end LockFreeQueue

/-- Where a thread stands inside a call, between its step on the queue and its step on the
counter. -/
inductive Pc (α : Type) where
  | idle
  | pushed
  | popped (item : α)
  deriving DecidableEq

structure World (α θ : Type) where
  queue : LockFreeQueue α
  threads : θ → Pc α

inductive Action (α θ : Type) where
  | push (t : θ) (item : α)
  | pop (t : θ)
  /-- The second step of the call the thread is in. -/
  | count (t : θ)

section
variable {α θ : Type}

def World.new : World α θ := ⟨.new, fun _ => .idle⟩

def World.set [DecidableEq θ] (s : World α θ) (queue : LockFreeQueue α) (t : θ) (pc : Pc α) :
    World α θ :=
  ⟨queue, Function.update s.threads t pc⟩

variable [DecidableEq θ]

/-- One atomic step. A pop that finds nothing returns at once and counts nothing. -/
def next (s : World α θ) : Action α θ → Option (World α θ)
  | .push t item =>
    match s.threads t with
    | .idle => some (s.set (s.queue.enqueue item) t .pushed)
    | _ => none
  | .pop t =>
    match s.threads t, s.queue.items with
    | .idle, [] => some s
    | .idle, item :: rest => some (s.set (s.queue.dequeue rest) t (.popped item))
    | _, _ => none
  | .count t =>
    match s.threads t with
    | .idle => none
    | .pushed => some (s.set s.queue.countUp t .idle)
    | .popped _ => some (s.set s.queue.countDown t .idle)

def Taken (s : World α θ) (action : Action α θ) (u : World α θ) : Prop := next s action = some u

inductive Step (s : World α θ) : Action α θ → World α θ → Prop
  | push {t : θ} {item : α} (idle : s.threads t = .idle) :
      Step s (.push t item) (s.set (s.queue.enqueue item) t .pushed)
  | popNone {t : θ} (idle : s.threads t = .idle) : Step s (.pop t) s
  | pop {t : θ} {item : α} {rest : List α} (idle : s.threads t = .idle)
      (items : s.queue.items = item :: rest) :
      Step s (.pop t) (s.set (s.queue.dequeue rest) t (.popped item))
  | countUp {t : θ} (pushed : s.threads t = .pushed) :
      Step s (.count t) (s.set s.queue.countUp t .idle)
  | countDown {t : θ} {item : α} (popped : s.threads t = .popped item) :
      Step s (.count t) (s.set s.queue.countDown t .idle)

theorem step_of_taken {s u : World α θ} {action : Action α θ} (taken : Taken s action u) :
    Step s action u := by
  cases action with
  | push t item =>
    simp only [Taken, next] at taken
    split at taken
    · rename_i idle
      cases taken
      exact .push idle
    · cases taken
  | pop t =>
    simp only [Taken, next] at taken
    split at taken
    · rename_i idle _
      cases taken
      exact .popNone idle
    · rename_i idle items
      cases taken
      exact .pop idle items
    · cases taken
  | count t =>
    simp only [Taken, next] at taken
    split at taken
    · cases taken
    · rename_i pushed
      cases taken
      exact .countUp pushed
    · rename_i popped
      cases taken
      exact .countDown popped

end

/-! How far the counter is from the queue. -/

def Pc.pushing {α : Type} : Pc α → Nat
  | .pushed => 1
  | _ => 0

def Pc.popping {α : Type} : Pc α → Nat
  | .popped _ => 1
  | _ => 0

theorem Pc.popping_le {α : Type} (pc : Pc α) : pc.popping ≤ 1 := by
  cases pc <;> simp [popping]

section
variable {α θ : Type} {s u : World α θ}

noncomputable def pushing (s : World α θ) : Nat := tally Pc.pushing s.threads

noncomputable def popping (s : World α θ) : Nat := tally Pc.popping s.threads

noncomputable def inProgress (s : World α θ) : Nat := pushing s + popping s

/-- The counter, with the pushes still to be counted, is the queue with the pops still to be
counted out, as far as 64 bits go. -/
structure Congruent (s : World α θ) : Prop where
  mostly : Mostly .idle s.threads
  size_lt : s.queue.size < 2 ^ 64
  congr : (s.queue.size + pushing s) % 2 ^ 64 = (s.queue.items.length + popping s) % 2 ^ 64

structure Balanced (s : World α θ) : Prop where
  mostly : Mostly .idle s.threads
  exact : s.queue.size + pushing s = s.queue.items.length + popping s

theorem balanced_new : Balanced (World.new : World α θ) := by
  have none : ∀ w : Pc α → Nat, w .idle = 0 → tally w (World.new : World α θ).threads = 0 :=
    fun w zero => tally_zero fun _ => zero
  refine ⟨mostly_const, ?_⟩
  rw [pushing, popping, none _ rfl, none _ rfl]
  rfl

theorem usizePred_congr {n : Nat} : (usizePred n + 1) % 2 ^ 64 = n % 2 ^ 64 := by
  unfold usizePred
  split_ifs <;> omega

theorem usizePred_lt {n : Nat} (small : n < 2 ^ 64) : usizePred n < 2 ^ 64 := by
  unfold usizePred
  split_ifs <;> omega

variable [DecidableEq θ]

theorem pushing_set (mostly : Mostly .idle s.threads) (queue : LockFreeQueue α) (t : θ) (pc : Pc α) :
    pushing (s.set queue t pc) + (s.threads t).pushing = pushing s + pc.pushing :=
  tally_update mostly rfl t pc

theorem popping_set (mostly : Mostly .idle s.threads) (queue : LockFreeQueue α) (t : θ) (pc : Pc α) :
    popping (s.set queue t pc) + (s.threads t).popping = popping s + pc.popping :=
  tally_update mostly rfl t pc

/-- A step on the queue leaves the counter behind by one more call; a step on the counter takes
one of those calls away. -/
theorem step_effect (mostly : Mostly .idle s.threads) {action : Action α θ} (step : Step s action u) :
    Mostly .idle u.threads ∧
      ((u.queue.size = s.queue.size ∧ u.queue.items.length + popping u + pushing s =
          s.queue.items.length + popping s + pushing u) ∨
        (∃ t, action = .count t ∧ s.threads t = .pushed ∧ u.queue = s.queue.countUp ∧
          pushing s = pushing u + 1 ∧ popping u = popping s) ∨
        ∃ t item, action = .count t ∧ s.threads t = .popped item ∧ u.queue = s.queue.countDown ∧
          popping s = popping u + 1 ∧ pushing u = pushing s) := by
  cases step with
  | push idle =>
    rename_i t item
    have pushes := pushing_set mostly (s.queue.enqueue item) t .pushed
    have pops := popping_set mostly (s.queue.enqueue item) t .pushed
    simp only [idle, Pc.pushing, Pc.popping] at pushes pops
    refine ⟨mostly.update t _, Or.inl ⟨rfl, ?_⟩⟩
    simp only [World.set, LockFreeQueue.enqueue, List.length_append, List.length_singleton] at *
    omega
  | popNone idle => exact ⟨mostly, Or.inl ⟨rfl, rfl⟩⟩
  | pop idle items =>
    rename_i t item rest
    have pushes := pushing_set mostly (s.queue.dequeue rest) t (.popped item)
    have pops := popping_set mostly (s.queue.dequeue rest) t (.popped item)
    simp only [idle, Pc.pushing, Pc.popping] at pushes pops
    refine ⟨mostly.update t _, Or.inl ⟨rfl, ?_⟩⟩
    simp only [World.set, LockFreeQueue.dequeue, items, List.length_cons] at *
    omega
  | countUp pushed =>
    rename_i t
    have pushes := pushing_set mostly s.queue.countUp t .idle
    have pops := popping_set mostly s.queue.countUp t .idle
    simp only [pushed, Pc.pushing, Pc.popping] at pushes pops
    exact ⟨mostly.update t _, Or.inr (Or.inl ⟨t, rfl, pushed, rfl, by omega, by omega⟩)⟩
  | countDown popped =>
    rename_i t item
    have pushes := pushing_set mostly s.queue.countDown t .idle
    have pops := popping_set mostly s.queue.countDown t .idle
    simp only [popped, Pc.pushing, Pc.popping] at pushes pops
    exact ⟨mostly.update t _, Or.inr (Or.inr ⟨t, item, rfl, popped, rfl, by omega, by omega⟩)⟩

theorem congruent_step (congruent : Congruent s) {action : Action α θ} (step : Step s action u) :
    Congruent u := by
  obtain ⟨mostly, size_lt, congr⟩ := congruent
  obtain ⟨mostly', ⟨size, items⟩ | ⟨t, -, -, queue, pushes, pops⟩ | ⟨t, item, -, -, queue, pops, pushes⟩⟩ :=
    step_effect mostly step
  · exact ⟨mostly', by omega, by omega⟩
  · refine ⟨mostly', ?_, ?_⟩ <;>
      (simp only [queue, LockFreeQueue.countUp, usizeAdd]; omega)
  · have wrapped := usizePred_congr (n := s.queue.size)
    refine ⟨mostly', ?_, ?_⟩
    · rw [queue]
      exact usizePred_lt size_lt
    · simp only [queue, LockFreeQueue.countDown]
      omega

/-- No pop is counted out while the pushes still to be counted are as many as the items that are
queued or taken; and a queue of 2^64 items is out of the question. -/
def Counted (s : World α θ) : Action α θ → Prop
  | .count t =>
    match s.threads t with
    | .idle => True
    | .pushed => s.queue.items.length + popping s < 2 ^ 64
    | .popped _ => pushing s < s.queue.items.length + popping s
  | _ => True

theorem balanced_step (balanced : Balanced s) {action : Action α θ} (counted : Counted s action)
    (step : Step s action u) : Balanced u := by
  obtain ⟨mostly, exact⟩ := balanced
  obtain ⟨mostly', ⟨size, items⟩ | ⟨t, rfl, pushed, queue, pushes, pops⟩ |
    ⟨t, item, rfl, popped, queue, pops, pushes⟩⟩ := step_effect mostly step
  · exact ⟨mostly', by omega⟩
  · simp only [Counted, pushed] at counted
    refine ⟨mostly', ?_⟩
    simp only [queue, LockFreeQueue.countUp]
    rw [usizeAdd_of_lt (by omega)]
    omega
  · simp only [Counted, popped] at counted
    have positive : s.queue.size ≠ 0 := by omega
    refine ⟨mostly', ?_⟩
    simp only [queue, LockFreeQueue.countDown, usizePred, if_neg positive]
    omega

/-- The first pop that is counted out too early takes the counter below zero. -/
theorem uncounted_step (balanced : Balanced s) {action : Action α θ} (early : ¬ Counted s action)
    (fits : s.queue.items.length + inProgress s < 2 ^ 64) (step : Step s action u) :
    u.queue.len = 2 ^ 64 - 1 ∧ u.queue.items.length + inProgress u < 2 ^ 64 - 1 := by
  obtain ⟨mostly, exact⟩ := balanced
  unfold inProgress at fits ⊢
  cases step with
  | push | popNone | pop => exact absurd trivial early
  | countUp pushed =>
    simp only [Counted, pushed] at early
    omega
  | countDown popped =>
    rename_i t item
    have pushes := pushing_set mostly s.queue.countDown t .idle
    have pops := popping_set mostly s.queue.countDown t .idle
    simp only [popped, Pc.pushing, Pc.popping] at pushes pops
    simp only [Counted, popped] at early
    have zero : s.queue.size = 0 := by omega
    have items : (s.set s.queue.countDown t .idle).queue.items = s.queue.items := rfl
    refine ⟨?_, by rw [items]; omega⟩
    simp only [World.set, LockFreeQueue.countDown, LockFreeQueue.len, usizePred, if_pos zero]

/-- For any number of threads and any interleaving in which no pop is counted out too early,
`len()` is off by no more than the calls between their two steps; and the first pop that is
counted out too early makes it 2^64 - 1. -/
theorem len_tracks_items (run : Reaches (Guarded Counted Taken) (World.new : World α θ) s) :
    (s.queue.len ≤ s.queue.items.length + inProgress s ∧
      s.queue.items.length ≤ s.queue.len + inProgress s) ∧
    ∀ action u, Taken s action u → ¬ Counted s action →
      s.queue.items.length + inProgress s < 2 ^ 64 →
      u.queue.len = 2 ^ 64 - 1 ∧ u.queue.items.length + inProgress u < u.queue.len := by
  have balanced : Balanced s := run.keeps balanced_new fun _ _ _ holds taken =>
    balanced_step holds taken.1 (step_of_taken taken.2)
  have exact := balanced.exact
  refine ⟨?_, fun action u taken early fits => ?_⟩
  · unfold inProgress LockFreeQueue.len
    omega
  · obtain ⟨len, below⟩ := uncounted_step balanced early fits (step_of_taken taken)
    exact ⟨len, by omega⟩

theorem len_tracks_items_two :
    ∃ s : World Nat Bool,
      exec next World.new [.push false 7, .push true 8, .count false, .pop false, .count false] =
        some s ∧
      s.queue.len = 0 ∧ s.queue.items.length ≤ s.queue.len + inProgress s := by
  obtain ⟨s, script, empty⟩ : ∃ s : World Nat Bool,
      exec next World.new [.push false 7, .push true 8, .count false, .pop false, .count false] =
        some s ∧ s.queue.len = 0 := ⟨_, rfl, rfl⟩
  have meets : Meets next Counted (World.new : World Nat Bool)
      [.push false 7, .push true 8, .count false, .pop false, .count false] := by
    refine ⟨trivial, trivial, ?_, trivial, ?_, trivial⟩
    · simp [Counted, World.set, World.new, LockFreeQueue.enqueue, LockFreeQueue.new, popping,
        tally_eq_sum, Pc.popping]
    · simp [Counted, World.set, World.new, LockFreeQueue.enqueue, LockFreeQueue.countUp,
        LockFreeQueue.dequeue, LockFreeQueue.new, pushing, popping, tally_eq_sum, Pc.pushing,
        Pc.popping]
  exact ⟨s, script, empty, (len_tracks_items (.of_script script meets)).1.2⟩

/-- A push, and a pop of its item that is counted out first: the queue is empty, one call is
between its steps, and the length is 2^64 - 1. -/
theorem len_wraps :
    ∃ s : World Nat Bool, exec next World.new [.push false 7, .pop true, .count true] = some s ∧
      s.queue.items = [] ∧ inProgress s = 1 ∧ s.queue.len = 2 ^ 64 - 1 ∧
      ¬ s.queue.len ≤ s.queue.items.length + inProgress s := by
  obtain ⟨s, script, items, threads, len⟩ : ∃ s : World Nat Bool,
      exec next World.new [.push false 7, .pop true, .count true] = some s ∧
      s.queue.items = [] ∧ (∀ t, s.threads t = if t then .idle else .pushed) ∧
      s.queue.len = 2 ^ 64 - 1 :=
    ⟨_, rfl, rfl, by decide, rfl⟩
  have one : inProgress s = 1 := by
    simp [inProgress, pushing, popping, tally_eq_sum, threads, Pc.pushing, Pc.popping]
  exact ⟨s, script, items, one, len, by rw [len, items, one]; decide⟩

end

end Secbuf.CountedQueue
