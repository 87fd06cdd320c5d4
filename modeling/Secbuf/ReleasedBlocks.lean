import Secbuf.BufferScript
import Secbuf.WriteHistory

/-! The blocks a buffer gives back to the allocator. Each is kept together with the bytes
the buffer had stored when it was given back, so that "still holds a byte that was written
through the buffer" is a statement about the run and not about the block alone. A record of the
operations says which bytes those are: what was stored last at each index of the block. -/

namespace Secbuf.ReleasedBlocks
open Calls Splice Storage BufferCore BufferScript WriteHistory

abbrev Cells := List (Nat × UInt8)

/-- Some non-zero byte of the block is one that was stored at that index. -/
def Holds (block : List UInt8) (written : Cells) : Prop :=
  ∃ cell ∈ written, cell.2 ≠ 0 ∧ block[cell.1]? = some cell.2

instance (block : List UInt8) (written : Cells) : Decidable (Holds block written) :=
  inferInstanceAs (Decidable (∃ cell ∈ written, _))

theorem not_holds_zeros (n : Nat) (written : Cells) : ¬ Holds (ByteVec.zeros n) written := by
  rintro ⟨cell, -, nonzero, found⟩
  exact nonzero (ByteVec.getElem?_zeros found)

structure Returned where
  block : List UInt8
  written : Cells
  deriving DecidableEq

def Clean (returned : List Returned) : Prop :=
  ∀ entry ∈ returned, ¬ Holds entry.block entry.written

instance (returned : List Returned) : Decidable (Clean returned) :=
  inferInstanceAs (Decidable (∀ entry ∈ returned, _))

def returnedSince (old new : ByteVec) : List (List UInt8) :=
  new.released.take (new.released.length - old.released.length)

/-- What an operation does to the block, whichever block it is: growing writes zeros behind the
data, a burn writes them over it, shrinking to fit cuts the block off behind it. Cutting the data
and moving to a larger block leave all the bytes where they are. -/
def blockEvents (v : ByteVec) : Change → List (Event UInt8)
  | .store start src => [.stored start src]
  | .resize n => if v.len < n then [.stored v.len (ByteVec.zeros (n - v.len))] else []
  | .shrink n => [.discarded (min n v.len)]
  | .wipe => [.stored 0 (ByteVec.zeros v.len)]
  | .zeroize => [.discarded 0]
  | .keep | .reserve _ | .clone => []

structure Traced where
  buffer : Buffer
  /-- What the operations so far have done to the block, latest first. -/
  events : List (Event UInt8)
  written : Cells
  returned : List Returned
  deriving DecidableEq

def start (b : Buffer) : Traced := ⟨b, [], [], []⟩

def next (s : Traced) (op : BufferOp) : Option Traced :=
  if op = .clone then none
  else (step op s.buffer).state?.map fun t => {
    buffer := t
    events := blockEvents s.buffer.data (op.change s.buffer) ++ s.events
    written := op.stores s.buffer ++ s.written
    returned := (returnedSince s.buffer.data t.data).map (⟨·, s.written⟩) ++ s.returned }

/-- The two ways a buffer ends: its derived `Drop`, or `burn_free`. -/
inductive Ending where
  | drop
  | burnFree
  deriving DecidableEq, Repr

def Ending.run : Ending → Buffer → ByteVec
  | .drop => Buffer.drop
  | .burnFree => Buffer.burnFree

def finish (s : Traced) (ending : Ending) : List Returned :=
  (returnedSince s.buffer.data (ending.run s.buffer)).map (⟨·, s.written⟩) ++ s.returned

def moves (v : ByteVec) : Change → Bool
  | .resize n => decide (v.capacity < n)
  | .reserve additional => decide (v.capacity < v.len + additional)
  | .shrink n => decide (min n v.len < v.capacity)
  | _ => false

/-- An operation may move the storage only where, at each index of the block, the operations before
it have stored a zero last, or nothing since the last discard. -/
def MovesClean (s : Traced) (op : BufferOp) : Prop :=
  moves s.buffer.data (op.change s.buffer) = true →
    ∀ i < s.buffer.data.capacity, (lastStored s.events i).getD 0 = 0

instance (s : Traced) (op : BufferOp) : Decidable (MovesClean s op) :=
  inferInstanceAs (Decidable (_ → _))

theorem effect_released {v w : ByteVec} {change : Change} (effect : Effect v change w)
    (same : change ≠ .clone) :
    w.released = (if moves v change then [v.block] else []) ++ v.released := by
  cases effect with
  | keep => rfl
  | store start src fits => rfl
  | resize _ n done =>
    simp only [moves, decide_eq_true_eq]
    rcases ByteVec.resize_cases done with ⟨shorter, rfl⟩ | ⟨-, inside, rfl⟩ |
      ⟨beyond, cap, room, fits, -, rfl⟩
    · have inside : n ≤ v.capacity := le_trans shorter (Nat.le_add_right _ _)
      rw [if_neg (by omega)]
      rfl
    · rw [if_neg (by omega)]
      rfl
    · rw [if_pos beyond]
      rfl
  | reserve _ n done =>
    have test : v.capacity < v.len + n ↔ v.spare.length < n := by
      simp only [ByteVec.capacity, ByteVec.len]
      omega
    simp only [moves, test, decide_eq_true_eq]
    rcases ByteVec.reserve_cases done with ⟨enough, rfl⟩ | ⟨short, -, cap, room, fits, rfl⟩
    · rw [if_neg (by omega)]
      rfl
    · rw [if_pos (by omega)]
      rfl
  | shrink n =>
    simp only [moves, decide_eq_true_eq, ByteVec.shrinkToFit, ByteVec.len_truncate,
      ByteVec.capacity_truncate]
    by_cases larger : min n v.len < v.capacity
    · rw [if_pos larger, if_pos larger]
      simp only [ByteVec.relocate, ByteVec.block_truncate]
      rfl
    · rw [if_neg larger, if_neg larger]
      rfl
  | wipe => rfl
  | zeroize => rfl
  | clone => exact absurd rfl same

theorem change_ne_clone {b : Buffer} {op : BufferOp} (same : op ≠ .clone) :
    op.change b ≠ .clone := by
  cases op <;> simp only [BufferOp.change, storeIf, growTo, ne_eq] <;>
    first | exact absurd rfl same | (split_ifs <;> simp) | simp

/-! The block is what the record says. -/

section
variable {v w : ByteVec} {events : List (Event UInt8)} {change : Change}

theorem block_relocate {cap : Nat} (room : v.len ≤ cap) (fits : cap < 2 ^ 63)
    (larger : v.capacity ≤ cap) :
    (v.relocate cap room fits).block = v.block ++ ByteVec.zeros (cap - v.capacity) := by
  have all : v.spare.length ≤ cap - v.len := by
    simp only [ByteVec.capacity, ByteVec.len] at larger ⊢
    omega
  simp only [ByteVec.block, ByteVec.relocate, List.take_of_length_le all, List.append_assoc]

theorem block_extendZeros {n : Nat} (inside : n ≤ v.spare.length) :
    (v.extendZeros n).block = splice v.block v.len (ByteVec.zeros n) := by
  simp only [ByteVec.block, ByteVec.extendZeros, min_eq_left inside, splice, ByteVec.len,
    List.take_left, ByteVec.zeros_length, List.drop_append]
  simp

theorem records_extended (records : Records 0 events v.block) {n : Nat} (inside : n ≤ v.spare.length) :
    Records 0 (.stored v.len (ByteVec.zeros n) :: events) (v.extendZeros n).block := by
  rw [block_extendZeros inside]
  apply records_stored records
  simp only [ByteVec.block, ByteVec.len, ByteVec.zeros_length, List.length_append]
  omega

theorem records_relocated (records : Records 0 events v.block) {cap : Nat} (room : v.len ≤ cap)
    (fits : cap < 2 ^ 63) (larger : v.capacity ≤ cap) :
    Records 0 events (v.relocate cap room fits).block := by
  rw [block_relocate room fits larger]
  exact records_grown records _

theorem block_shrunk (v : ByteVec) (n : Nat) :
    (v.truncate n).shrinkToFit.block = v.block.take (min n v.len) := by
  rw [ByteVec.block, ByteVec.spare_shrinkToFit, ByteVec.bytes_shrinkToFit, List.append_nil,
    ByteVec.block, List.take_append_of_le_length (min_le_right n v.len), ByteVec.truncate,
    ByteVec.len, ← List.take_take, List.take_length]

theorem records_effect (effect : Effect v change w) (same : change ≠ .clone)
    (records : Records 0 events v.block) : Records 0 (blockEvents v change ++ events) w.block := by
  cases effect with
  | keep => exact records
  | store start src fits =>
    have whole : (v.store start src).block = splice v.block start src := by
      rw [ByteVec.block, ByteVec.bytes_store fits, ByteVec.block, splice_append_left _ _ _ _ fits]
      rfl
    rw [whole]
    apply records_stored records
    exact le_trans fits (by simp only [ByteVec.block, ByteVec.len, List.length_append]; omega)
  | resize _ n done =>
    simp only [blockEvents]
    rcases ByteVec.resize_cases done with ⟨shorter, rfl⟩ | ⟨longer, inside, rfl⟩ |
      ⟨beyond, cap, room, fits, enough, rfl⟩
    · rw [if_neg (not_lt.mpr shorter), ByteVec.block_truncate]
      exact records
    · rw [if_pos longer]
      apply records_extended records
      simp only [ByteVec.capacity] at inside
      simp only [ByteVec.len]
      omega
    · have longer : v.len < n := lt_of_le_of_lt (Nat.le_add_right _ _) beyond
      rw [if_pos longer]
      apply records_extended (records_relocated records room fits (beyond.le.trans enough))
      rw [ByteVec.spare_relocate_length]
      omega
  | reserve _ n done =>
    rcases ByteVec.reserve_cases done with ⟨-, rfl⟩ | ⟨short, enough, cap, room, fits, rfl⟩
    · exact records
    · apply records_relocated records room fits
      rw [ByteVec.spare_relocate_length] at enough
      simp only [ByteVec.capacity, ByteVec.len] at room enough ⊢
      omega
  | shrink n =>
    rw [block_shrunk]
    exact records_cut records _
  | wipe =>
    have whole : v.zeroizeSlice.block = splice v.block 0 (ByteVec.zeros v.len) := by
      simp [ByteVec.block, ByteVec.zeroizeSlice, splice, ByteVec.len]
    rw [whole]
    apply records_stored records
    simp only [ByteVec.zeros_length, ByteVec.block, ByteVec.len, List.length_append]
    omega
  | zeroize => exact records_wiped _
  | clone => exact absurd rfl same

end

/-- The block holds what the record says, on top of what it held at first, and the record tells of
the bytes written through the buffer and of zeros. -/
structure Recorded (first : List UInt8) (s : Traced) : Prop where
  valid : Valid s.buffer
  block : Records 0 (s.events ++ [.stored 0 first]) s.buffer.data.block
  stores : ∀ start src, .stored start src ∈ s.events →
    ∀ cell ∈ placed start src, cell.2 = 0 ∨ cell ∈ s.written
  covers : ∀ cell ∈ s.written, ∃ event ∈ s.events, event.Covers cell.1

theorem recorded_start {b : Buffer} (made : Made b) : Recorded b.data.block (start b) := by
  refine ⟨made.valid, ?_, nofun, nofun⟩
  intro i
  by_cases inside : i < b.data.block.length
  · simp [start, lastStored, inside]
  · simp [start, lastStored, inside]

theorem blockEvents_stores {v : ByteVec} {change : Change} {start : Nat} {src : List UInt8}
    (member : .stored start src ∈ blockEvents v change) :
    ∀ cell ∈ placed start src, cell.2 = 0 ∨ cell ∈ change.writes := by
  have zeros : ∀ n, src = ByteVec.zeros n →
      ∀ cell ∈ placed start src, cell.2 = 0 ∨ cell ∈ change.writes := by
    rintro n rfl ⟨i, value⟩ inside
    obtain ⟨j, -, found⟩ := mem_placed.mp inside
    exact Or.inl (ByteVec.getElem?_zeros found)
  cases change with
  | store begin bytes =>
    cases List.mem_singleton.mp member
    exact fun cell inside => Or.inr inside
  | resize n =>
    simp only [blockEvents] at member
    split_ifs at member
    · cases List.mem_singleton.mp member
      exact zeros _ rfl
    · cases member
  | wipe =>
    cases List.mem_singleton.mp member
    exact zeros _ rfl
  | shrink n | zeroize => cases List.mem_singleton.mp member
  | keep | reserve n | clone => cases member

theorem writes_covered {v : ByteVec} {change : Change} {cell : Nat × UInt8}
    (member : cell ∈ change.writes) : ∃ event ∈ blockEvents v change, event.Covers cell.1 := by
  cases change with
  | store start src =>
    obtain ⟨j, place, found⟩ := mem_placed.mp member
    have inside : j < src.length := (List.getElem?_eq_some_iff.mp found).1
    exact ⟨.stored start src, List.mem_singleton_self _, by simp only [Event.Covers]; omega⟩
  | _ => cases member

/-- The one block a step can give back is the one it found. -/
theorem next_spec {first : List UInt8} {s t : Traced} {op : BufferOp} (recorded : Recorded first s)
    (taken : next s op = some t) :
    Recorded first t ∧ t.returned =
      (if moves s.buffer.data (op.change s.buffer) then [⟨s.buffer.data.block, s.written⟩] else [])
        ++ s.returned := by
  unfold next at taken
  split_ifs at taken with cloned
  obtain ⟨after, left, rfl⟩ := Option.map_eq_some_iff.mp taken
  obtain ⟨kept, effect⟩ := step_lands recorded.valid op after left
  have same := change_ne_clone (b := s.buffer) cloned
  constructor
  · refine ⟨kept, ?_, ?_, ?_⟩
    · rw [List.append_assoc]
      exact records_effect effect same recorded.block
    · intro start src member cell inside
      rcases List.mem_append.mp member with new | old
      · exact (blockEvents_stores new cell inside).imp_right (List.mem_append_left _)
      · exact (recorded.stores start src old cell inside).imp_right (List.mem_append_right _)
    · intro cell member
      rcases List.mem_append.mp member with new | old
      · obtain ⟨event, there, covers⟩ := writes_covered new
        exact ⟨event, List.mem_append_left _ there, covers⟩
      · obtain ⟨event, there, covers⟩ := recorded.covers cell old
        exact ⟨event, List.mem_append_right _ there, covers⟩
  · simp only [returnedSince, effect_released effect same]
    split_ifs <;> simp

/-- What the block holds of the bytes written through the buffer, the record tells. -/
theorem holds_iff {first : List UInt8} {s : Traced} (recorded : Recorded first s) :
    ¬ Holds s.buffer.data.block s.written ↔
      ∀ i < s.buffer.data.capacity, (lastStored s.events i).getD 0 = 0 := by
  constructor
  · intro clean i inside
    cases last : lastStored s.events i with
    | none => rfl
    | some value =>
      by_contra nonzero
      obtain ⟨start, src, member, begins, found⟩ := lastStored_source last
      have placed : (i, value) ∈ placed start src := mem_placed.mpr ⟨i - start, by omega, found⟩
      have written := (recorded.stores start src member _ placed).resolve_left nonzero
      have there : i < s.buffer.data.block.length := by rwa [ByteVec.block, List.length_append]
      have held := recorded.block i
      rw [lastStored_of_later last, List.getElem?_eq_getElem there] at held
      exact clean ⟨(i, value), written, nonzero, by
        rw [List.getElem?_eq_getElem there]; exact congrArg some held⟩
  · rintro clear ⟨⟨i, value⟩, written, nonzero, found⟩
    have inside : i < s.buffer.data.capacity := by
      have there := (List.getElem?_eq_some_iff.mp found).1
      rwa [ByteVec.block, List.length_append] at there
    have held := recorded.block i
    rw [found] at held
    cases last : lastStored s.events i with
    | none =>
      have either : (∀ event ∈ s.events, ¬ event.Covers i) ∨
          lastStored (s.events ++ [.stored 0 first]) i = none := lastStored_eq_none last
      rcases either with untouched | gone
      · obtain ⟨event, member, covers⟩ := recorded.covers _ written
        exact untouched event member covers
      · rw [gone] at held
        exact nonzero held
    | some other =>
      rw [lastStored_of_later last] at held
      have zero := clear i inside
      rw [last] at zero
      exact nonzero (held.trans zero)

theorem run_clean {first : List UInt8} {s t : Traced} {ops : List BufferOp}
    (recorded : Recorded first s) (script : exec next s ops = some t) :
    Clean t.returned ↔ Clean s.returned ∧ Meets next MovesClean s ops := by
  induction ops generalizing s with
  | nil =>
    cases script
    simp only [Meets, and_true]
  | cons op rest ih =>
    obtain ⟨middle, taken, later⟩ := Option.bind_eq_some_iff.mp script
    obtain ⟨kept, returned⟩ := next_spec recorded taken
    apply (ih kept later).trans
    simp only [Meets, taken, ← and_assoc]
    apply and_congr_left
    intro _
    rw [returned, MovesClean, ← holds_iff recorded]
    split_ifs with moved
    · simp only [Clean, List.singleton_append, List.forall_mem_cons, moved, true_implies,
        and_comm]
    · simp only [Clean, List.nil_append, moved, Bool.false_eq_true, false_implies, and_true]

theorem finish_clean (s : Traced) (ending : Ending) :
    Clean (finish s ending) ↔ Clean s.returned := by
  have last : returnedSince s.buffer.data (ending.run s.buffer) =
      [ByteVec.zeros s.buffer.data.capacity] := by
    cases ending with
    | drop =>
      simp [returnedSince, Ending.run, Buffer.drop, ByteVec.dropZeroized, ByteVec.zeroize,
        ByteVec.block]
    | burnFree =>
      simp [returnedSince, Ending.run, Buffer.burnFree, Buffer.drop, ByteVec.dropZeroized,
        ByteVec.zeroize, ByteVec.block, ByteVec.zeroizeSlice, ByteVec.capacity, ByteVec.len]
  rw [finish, last]
  simp only [Clean, List.map_singleton, List.singleton_append, List.forall_mem_cons,
    not_holds_zeros, not_false_eq_true, true_and]

/-- No block a run gives back holds a non-zero byte written through the buffer, neither while
it runs nor once it has ended, exactly when every operation that moves the storage comes after
operations that have left no non-zero byte at any index of the block: what was stored there last
is a zero, or has been discarded. -/
theorem released_clean_iff {b : Buffer} (made : Made b) {ops : List BufferOp} {t : Traced}
    (script : exec next (start b) ops = some t) :
    (Clean t.returned ↔ Meets next MovesClean (start b) ops) ∧
      ∀ ending, Clean (finish t ending) ↔ Meets next MovesClean (start b) ops := by
  have rule := run_clean (recorded_start made) script
  have fresh : Clean (start b).returned := nofun
  have exactly : Clean t.returned ↔ Meets next MovesClean (start b) ops :=
    rule.trans (and_iff_right fresh)
  exact ⟨exactly, fun ending => (finish_clean t ending).trans exactly⟩

def fourBytes : Slice := ⟨[1, 2, 3, 4], by decide⟩

def fresh : Buffer := ⟨⟨[0, 0, 0, 0], [], [], by decide⟩, 0, 0⟩

theorem released_clean_burned :
    ∃ t, exec next (start fresh) [.putBytes fourBytes, .burn, .setLen 5] = some t ∧
      Clean t.returned ∧ Clean (finish t .drop) := by
  obtain ⟨t, script⟩ : ∃ t, exec next (start fresh) [.putBytes fourBytes, .burn, .setLen 5] =
    some t := ⟨_, rfl⟩
  have made : Made fresh := .new (show Buffer.new 4 = .ok fresh from rfl)
  have rule := released_clean_iff made script
  exact ⟨t, script, rule.1.mpr (by decide), (rule.2 .drop).mpr (by decide)⟩

/-- Four bytes written, then one byte more asked for: the old block goes back as it stands. -/
theorem released_with_contents :
    Buffer.new 4 = .ok fresh ∧
      ∃ t, exec next (start fresh) [.putBytes fourBytes, .setLen 5] = some t ∧
        t.returned = [⟨[1, 2, 3, 4], [(0, 1), (1, 2), (2, 3), (3, 4)]⟩] ∧ ¬ Clean t.returned :=
  ⟨rfl, _, rfl, rfl, by decide⟩

end Secbuf.ReleasedBlocks
