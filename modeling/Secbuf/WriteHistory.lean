import Secbuf.Splice

/-! A list that is overwritten, cut off and grown again, against a record of what was done to it.
Read as a tape that goes on with blanks, it holds at every index what was stored there last. -/

namespace Secbuf.WriteHistory
open Splice

variable {α : Type}

inductive Event (α : Type) where
  /-- `src` was stored from `start` on. -/
  | stored (start : Nat) (src : List α)
  /-- Everything from index `n` on was thrown away. -/
  | discarded (n : Nat)
  deriving DecidableEq, Repr

def Event.Covers : Event α → Nat → Prop
  | .stored start src, i => start ≤ i ∧ i < start + src.length
  | .discarded n, i => n ≤ i

/-- The element most recently stored at an index, unless it was discarded since. The record has
the latest event first. -/
def lastStored : List (Event α) → Nat → Option α
  | [], _ => none
  | .stored start src :: earlier, i =>
    if start ≤ i ∧ i < start + src.length then src[i - start]? else lastStored earlier i
  | .discarded n :: earlier, i => if n ≤ i then none else lastStored earlier i

/-- The list holds what the record says, and a blank where it says nothing. -/
def Records (blank : α) (events : List (Event α)) (l : List α) : Prop :=
  ∀ i, l[i]?.getD blank = (lastStored events i).getD blank

section
variable {blank : α} {events : List (Event α)} {l m : List α}

theorem lastStored_append {later : List (Event α)} {i : Nat}
    (untouched : ∀ event ∈ later, ¬ event.Covers i) :
    lastStored (later ++ events) i = lastStored events i := by
  induction later with
  | nil => rfl
  | cons event later ih =>
    have rest := ih fun other member => untouched other (List.mem_cons_of_mem _ member)
    have here := untouched event List.mem_cons_self
    cases event with
    | stored start src =>
      simp only [Event.Covers] at here
      rw [List.cons_append, lastStored, if_neg here, rest]
    | discarded n =>
      simp only [Event.Covers] at here
      rw [List.cons_append, lastStored, if_neg here, rest]

theorem lastStored_of_later {later : List (Event α)} {i : Nat} {value : α}
    (found : lastStored later i = some value) : lastStored (later ++ events) i = some value := by
  induction later with
  | nil => cases found
  | cons event later ih =>
    cases event with
    | stored start src =>
      rw [List.cons_append, lastStored]
      rw [lastStored] at found
      split_ifs at found ⊢
      · exact found
      · exact ih found
    | discarded n =>
      rw [List.cons_append, lastStored]
      rw [lastStored] at found
      split_ifs at found ⊢
      exact ih found

theorem lastStored_eq_none {later : List (Event α)} {i : Nat} (nothing : lastStored later i = none) :
    (∀ event ∈ later, ¬ event.Covers i) ∨ lastStored (later ++ events) i = none := by
  induction later with
  | nil => exact Or.inl (List.forall_mem_nil _)
  | cons event later ih =>
    cases event with
    | stored start src =>
      rw [List.cons_append, lastStored]
      rw [lastStored] at nothing
      split_ifs at nothing ⊢ with inside
      · exact Or.inr nothing
      · exact (ih nothing).imp_left fun rest => List.forall_mem_cons.mpr ⟨inside, rest⟩
    | discarded n =>
      rw [List.cons_append, lastStored]
      rw [lastStored] at nothing
      split_ifs at nothing ⊢ with beyond
      · exact Or.inr rfl
      · exact (ih nothing).imp_left fun rest => List.forall_mem_cons.mpr ⟨beyond, rest⟩

theorem lastStored_source {i : Nat} {value : α} (found : lastStored events i = some value) :
    ∃ start src, .stored start src ∈ events ∧ start ≤ i ∧ src[i - start]? = some value := by
  induction events with
  | nil => cases found
  | cons event earlier ih =>
    have onward : lastStored earlier i = some value →
        ∃ start src, .stored start src ∈ event :: earlier ∧ start ≤ i ∧
          src[i - start]? = some value := by
      intro before
      obtain ⟨start, src, member, inside⟩ := ih before
      exact ⟨start, src, List.mem_cons_of_mem _ member, inside⟩
    cases event with
    | stored start src =>
      rw [lastStored] at found
      split_ifs at found with inside
      · exact ⟨start, src, List.mem_cons_self, inside.1, found⟩
      · exact onward found
    | discarded n =>
      rw [lastStored] at found
      split_ifs at found
      exact onward found

theorem lastStored_adjacent (start : Nat) (first second : List α) (i : Nat) :
    lastStored (.stored (start + first.length) second :: .stored start first :: events) i =
      lastStored (.stored start (first ++ second) :: events) i := by
  simp only [lastStored, List.length_append, List.getElem?_append]
  split_ifs <;> first | rfl | omega | (congr 1; omega)

theorem records_blank (n : Nat) : Records blank [] (List.replicate n blank) := by
  intro i
  rw [List.getElem?_replicate, lastStored]
  split_ifs <;> rfl

theorem records_stored (records : Records blank events l) {start : Nat} {src : List α}
    (fits : start + src.length ≤ l.length) :
    Records blank (.stored start src :: events) (splice l start src) := by
  intro i
  rw [getElem?_splice l start src fits, lastStored]
  split_ifs with inside
  · rfl
  · exact records i

theorem records_cut (records : Records blank events l) (n : Nat) :
    Records blank (.discarded n :: events) (l.take n) := by
  intro i
  rw [List.getElem?_take, lastStored]
  by_cases early : i < n
  · rw [if_pos early, if_neg (by omega)]
    exact records i
  · rw [if_neg early, if_pos (by omega)]

theorem records_grown (records : Records blank events l) (n : Nat) :
    Records blank events (l ++ List.replicate n blank) := by
  intro i
  rw [← records i, List.getElem?_append]
  split_ifs with inside
  · rfl
  · rw [List.getElem?_replicate, List.getElem?_eq_none (by omega)]
    split_ifs <;> rfl

theorem records_wiped (n : Nat) : Records blank (.discarded 0 :: events) (List.replicate n blank) := by
  intro i
  rw [records_blank n i, lastStored, lastStored, if_pos (Nat.zero_le i)]

theorem records_beyond (before : Records blank events l) {n : Nat} (far : l.length ≤ n)
    (after : Records blank (.discarded n :: events) m) : Records blank events m := by
  intro i
  have now := after i
  rw [lastStored] at now
  split_ifs at now with beyond
  · have old := before i
    rw [List.getElem?_eq_none (by omega)] at old
    exact now.trans old
  · exact now

theorem records_congr {other : List (Event α)} (records : Records blank events l)
    (same : ∀ i, lastStored other i = lastStored events i) : Records blank other l := by
  intro i
  rw [same i]
  exact records i

/-- What the record before and the record after do not tell apart is not changed. -/
theorem records_frame {later : List (Event α)} (before : Records blank events l)
    (after : Records blank (later ++ events) m) {i : Nat} (inside : i < l.length)
    (inside' : i < m.length) (untouched : ∀ event ∈ later, ¬ event.Covers i) : m[i]? = l[i]? := by
  have same : m[i]?.getD blank = l[i]?.getD blank := by
    rw [after i, before i, lastStored_append untouched]
  rw [List.getElem?_eq_getElem inside, List.getElem?_eq_getElem inside'] at same ⊢
  exact congrArg some same

end

end Secbuf.WriteHistory
