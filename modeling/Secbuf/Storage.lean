import Mathlib.Algebra.Group.Nat.Defs
import Mathlib.Data.List.Basic
import Mathlib.Order.Lattice
import Mathlib.Tactic.SplitIfs
import Secbuf.Calls
import Secbuf.Splice

/-! The storage under a buffer: a `Vec<u8>` seen together with the whole block it owns and
the blocks it has already given back to the allocator. Bytes of a block that were never
written count as zero. -/

namespace Secbuf.Storage
open Calls Splice

/-- Machine addition on a 64-bit `usize`, overflow checks off. -/
def usizeAdd (a b : Nat) : Nat := (a + b) % 2 ^ 64

@[simp] theorem usizeAdd_of_lt {a b : Nat} (fits : a + b < 2 ^ 64) : usizeAdd a b = a + b :=
  Nat.mod_eq_of_lt fits

def usizeMul (a b : Nat) : Nat := (a * b) % 2 ^ 64

@[simp] theorem usizeMul_of_lt {a b : Nat} (fits : a * b < 2 ^ 64) : usizeMul a b = a * b :=
  Nat.mod_eq_of_lt fits

@[ext] structure ByteVec where
  /-- The initialised part, `data[..]`. -/
  bytes : List UInt8
  /-- The rest of the block, from the length up to the capacity. -/
  spare : List UInt8
  /-- Blocks handed back to the allocator, as they stood, latest first. -/
  released : List (List UInt8)
  /-- No allocation exceeds `isize::MAX` bytes. -/
  capacity_lt : bytes.length + spare.length < 2 ^ 63
  deriving DecidableEq

namespace ByteVec

def len (v : ByteVec) : Nat := v.bytes.length
def capacity (v : ByteVec) : Nat := v.bytes.length + v.spare.length
def block (v : ByteVec) : List UInt8 := v.bytes ++ v.spare

def zeros (n : Nat) : List UInt8 := List.replicate n 0

def zeroed (n : Nat) : Except Fault ByteVec :=
  if fits : n < 2 ^ 63 then
    .ok ⟨zeros n, [], [], by simpa [zeros] using fits⟩
  else .error .panic

def withCapacity (n : Nat) : Except Fault ByteVec :=
  if fits : n < 2 ^ 63 then
    .ok ⟨[], zeros n, [], by simpa [zeros] using fits⟩
  else .error .panic

/-- Truncation moves the length only: the cut bytes stay in the block. -/
def truncate (v : ByteVec) (n : Nat) : ByteVec where
  bytes := v.bytes.take n
  spare := v.bytes.drop n ++ v.spare
  released := v.released
  capacity_lt := by
    have bound := v.capacity_lt
    simp only [List.length_append, List.length_take, List.length_drop]
    omega

/-- Move to a block of `cap` bytes, as `realloc` does: what fits of the old block is carried along,
past the length too, and the old block is handed back as it stands. -/
def relocate (v : ByteVec) (cap : Nat) (room : v.len ≤ cap) (fits : cap < 2 ^ 63) : ByteVec where
  bytes := v.bytes
  spare := v.spare.take (cap - v.len) ++ zeros (cap - v.capacity)
  released := v.block :: v.released
  capacity_lt := by
    simp only [len] at room
    simp only [len, capacity, zeros, List.length_append, List.length_take, List.length_replicate]
    omega

/-- Amortised growth: at least double, at least eight bytes. -/
def reserve (v : ByteVec) (additional : Nat) : Except Fault ByteVec :=
  if additional ≤ v.spare.length then .ok v
  else
    let cap := max 8 (max (2 * v.capacity) (v.len + additional))
    if fits : cap < 2 ^ 63 then
      .ok (v.relocate cap (le_trans (Nat.le_add_right _ _) (le_trans (le_max_right _ _)
        (le_max_right _ _))) fits)
    else .error .panic

def extendZeros (v : ByteVec) (n : Nat) : ByteVec where
  bytes := v.bytes ++ zeros (min n v.spare.length)
  spare := v.spare.drop n
  released := v.released
  capacity_lt := by
    have bound := v.capacity_lt
    simp only [zeros, List.length_append, List.length_replicate, List.length_drop]
    omega

def resize (v : ByteVec) (n : Nat) : Except Fault ByteVec :=
  if n ≤ v.len then .ok (v.truncate n)
  else
    match v.reserve (n - v.len) with
    | .ok w => .ok (w.extendZeros (n - v.len))
    | .error reason => .error reason

def shrinkToFit (v : ByteVec) : ByteVec :=
  if v.len < v.capacity then
    v.relocate v.len le_rfl (lt_of_le_of_lt (Nat.le_add_right _ _) v.capacity_lt)
  else v

/-- `Zeroize for [u8]`: every byte of the slice, length kept. -/
def zeroizeSlice (v : ByteVec) : ByteVec where
  bytes := zeros v.len
  spare := v.spare
  released := v.released
  capacity_lt := by simpa [zeros, len] using v.capacity_lt

/-- `Zeroize for Vec<u8>`: the whole block is cleared and the length drops to zero. -/
def zeroize (v : ByteVec) : ByteVec where
  bytes := []
  spare := zeros v.capacity
  released := v.released
  capacity_lt := by simpa [zeros, capacity] using v.capacity_lt

def clone (v : ByteVec) : ByteVec where
  bytes := v.bytes
  spare := []
  released := []
  capacity_lt := lt_of_le_of_lt (Nat.add_le_add_left (Nat.zero_le _) _) v.capacity_lt

/-- Dropping a vector that is zeroized on drop: the block goes back cleared. -/
def dropZeroized (v : ByteVec) : ByteVec where
  bytes := []
  spare := []
  released := v.zeroize.block :: v.released
  capacity_lt := by decide

/-- Store through a raw pointer at `data.as_mut_ptr().add(start)`. -/
def write (v : ByteVec) (start : Nat) (src : List UInt8) : Except Fault ByteVec :=
  if inside : start + src.length ≤ v.capacity then
    .ok {
      bytes := (splice v.block start src).take v.len
      spare := (splice v.block start src).drop v.len
      released := v.released
      capacity_lt := by
        have bound := v.capacity_lt
        simp only [capacity] at inside
        have kept : (splice v.block start src).length = v.bytes.length + v.spare.length := by
          rw [length_splice _ _ _ (by simpa [block] using inside), block, List.length_append]
        simp only [List.length_take, List.length_drop, kept]
        omega }
  else .error .undefinedBehaviour

def read (v : ByteVec) (start n : Nat) : Except Fault (List UInt8) :=
  if start + n ≤ v.capacity then .ok ((v.block.drop start).take n)
  else .error .undefinedBehaviour

def set (v : ByteVec) (i : Nat) (value : UInt8) : Except Fault ByteVec :=
  if i < v.len then
    .ok { v with
      bytes := v.bytes.set i value
      capacity_lt := by simpa using v.capacity_lt }
  else .error .panic

def get (v : ByteVec) (i : Nat) : Except Fault UInt8 :=
  match v.bytes[i]? with
  | some value => .ok value
  | none => .error .panic

def slice (v : ByteVec) (low high : Nat) : Except Fault (List UInt8) :=
  if low ≤ high ∧ high ≤ v.len then .ok ((v.bytes.take high).drop low) else .error .panic

def store (v : ByteVec) (start : Nat) (src : List UInt8) : ByteVec where
  bytes := (splice v.bytes start src).take v.len
  spare := v.spare
  released := v.released
  capacity_lt := by
    have bound := v.capacity_lt
    simp only [len, List.length_take]
    omega

@[simp] theorem zeros_length (n : Nat) : (zeros n).length = n := List.length_replicate

theorem mem_zeros {n : Nat} {value : UInt8} (member : value ∈ zeros n) : value = 0 :=
  List.eq_of_mem_replicate member

theorem getElem?_zeros {n i : Nat} {value : UInt8} (found : (zeros n)[i]? = some value) :
    value = 0 :=
  mem_zeros (List.mem_of_getElem? found)

theorem zeroed_of_lt {n : Nat} (fits : n < 2 ^ 63) :
    zeroed n = .ok ⟨zeros n, [], [], by simpa [zeros] using fits⟩ := dif_pos fits

theorem withCapacity_of_lt {n : Nat} (fits : n < 2 ^ 63) :
    withCapacity n = .ok ⟨[], zeros n, [], by simpa [zeros] using fits⟩ := dif_pos fits

@[simp] theorem len_truncate (v : ByteVec) (n : Nat) : (v.truncate n).len = min n v.len := by
  simp [truncate, len]

@[simp] theorem capacity_truncate (v : ByteVec) (n : Nat) :
    (v.truncate n).capacity = v.capacity := by
  simp only [truncate, capacity, List.length_append, List.length_take, List.length_drop]
  omega

@[simp] theorem block_truncate (v : ByteVec) (n : Nat) : (v.truncate n).block = v.block := by
  simp only [truncate, block, ← List.append_assoc, List.take_append_drop]

theorem spare_relocate_length (v : ByteVec) (cap : Nat) (room : v.len ≤ cap) (fits : cap < 2 ^ 63) :
    (v.relocate cap room fits).spare.length = cap - v.len := by
  simp only [relocate, List.length_append, List.length_take, zeros_length, capacity, len]
  omega

theorem reserve_cases {v w : ByteVec} {additional : Nat} (done : v.reserve additional = .ok w) :
    (additional ≤ v.spare.length ∧ w = v) ∨
      (v.spare.length < additional ∧ additional ≤ w.spare.length ∧
        ∃ cap room fits, w = v.relocate cap room fits) := by
  unfold reserve at done
  dsimp only at done
  split_ifs at done with enough fits
  · exact Or.inl ⟨enough, (Except.ok.inj done).symm⟩
  · refine Or.inr ⟨by omega, ?_, _, _, fits, (Except.ok.inj done).symm⟩
    rw [← Except.ok.inj done, spare_relocate_length]
    omega

/-- Everything `resize` can do: cut, extend in place, or move and extend. -/
theorem resize_cases {v w : ByteVec} {n : Nat} (done : v.resize n = .ok w) :
    (n ≤ v.len ∧ w = v.truncate n) ∨
      (v.len < n ∧ n ≤ v.capacity ∧ w = v.extendZeros (n - v.len)) ∨
      (v.capacity < n ∧ ∃ cap room fits, n ≤ cap ∧
        w = (v.relocate cap room fits).extendZeros (n - v.len)) := by
  unfold resize at done
  split_ifs at done with shorter
  · exact Or.inl ⟨shorter, (Except.ok.inj done).symm⟩
  · right
    cases moved : v.reserve (n - v.len) with
    | error reason => simp [moved] at done
    | ok u =>
      simp only [moved, Except.ok.injEq] at done
      rcases reserve_cases moved with ⟨enough, rfl⟩ | ⟨short, enough, cap, room, fits, rfl⟩
      · left
        simp only [len] at shorter enough
        simp only [len, capacity]
        exact ⟨by omega, by omega, done.symm⟩
      · right
        rw [spare_relocate_length] at enough
        simp only [len] at enough shorter short
        refine ⟨by simp only [capacity]; omega, cap, room, fits, by omega, done.symm⟩

theorem resize_bytes {v w : ByteVec} {n : Nat} (done : v.resize n = .ok w) :
    w.bytes = v.bytes.take n ++ zeros (n - v.len) := by
  rcases resize_cases done with ⟨shorter, rfl⟩ | ⟨longer, inside, rfl⟩ |
    ⟨beyond, cap, room, fits, enough, rfl⟩
  · simp only [truncate, zeros, Nat.sub_eq_zero_of_le shorter, List.replicate_zero,
      List.append_nil]
  · simp only [len, capacity] at longer inside
    simp only [extendZeros, len, List.take_of_length_le (by omega : v.bytes.length ≤ n)]
    congr 2
    omega
  · have wide : min (n - v.len) (v.relocate cap room fits).spare.length = n - v.len := by
      rw [spare_relocate_length]
      omega
    have all : v.bytes.length ≤ n := le_trans (Nat.le_add_right _ _) beyond.le
    change v.bytes ++ zeros (min (n - v.len) (v.relocate cap room fits).spare.length) = _
    rw [wide, List.take_of_length_le all]

theorem resize_len {v w : ByteVec} {n : Nat} (done : v.resize n = .ok w) : w.len = n := by
  simp only [len, resize_bytes done, List.length_append, List.length_take, zeros_length]
  omega

theorem bytes_store {v : ByteVec} {start : Nat} {src : List UInt8}
    (fits : start + src.length ≤ v.len) : (v.store start src).bytes = splice v.bytes start src := by
  have kept := length_splice v.bytes start src fits
  exact List.take_of_length_le kept.le

theorem write_inside (v : ByteVec) (start : Nat) (src : List UInt8)
    (fits : start + src.length ≤ v.len) : v.write start src = .ok (v.store start src) := by
  have within : start + src.length ≤ v.bytes.length := fits
  have bound : start + src.length ≤ v.capacity := le_trans fits (Nat.le_add_right _ _)
  have kept := length_splice v.bytes start src within
  unfold write
  rw [dif_pos bound]
  congr 1
  ext1
  · change (splice (v.bytes ++ v.spare) start src).take v.bytes.length =
      (splice v.bytes start src).take v.bytes.length
    rw [splice_append_left _ _ _ _ within, List.take_append_of_le_length kept.ge]
  · change (splice (v.bytes ++ v.spare) start src).drop v.bytes.length = v.spare
    rw [splice_append_left _ _ _ _ within, ← kept, List.drop_left]
  · rfl

theorem read_inside (v : ByteVec) (start n : Nat) (fits : start + n ≤ v.len) :
    v.read start n = .ok ((v.bytes.drop start).take n) := by
  have within : start + n ≤ v.bytes.length := fits
  have bound : start + n ≤ v.capacity := le_trans fits (Nat.le_add_right _ _)
  unfold read
  rw [if_pos bound, block,
    List.drop_append_of_le_length (by omega),
    List.take_append_of_le_length (by simp only [List.length_drop]; omega)]

theorem slice_inside (v : ByteVec) (low n : Nat) (fits : low + n ≤ v.len) :
    v.slice low (low + n) = .ok ((v.bytes.drop low).take n) := by
  unfold slice
  rw [if_pos ⟨by omega, fits⟩, List.drop_take, Nat.add_sub_cancel_left]

theorem len_store {v : ByteVec} {start : Nat} {src : List UInt8}
    (fits : start + src.length ≤ v.len) : (v.store start src).len = v.len := by
  rw [len, bytes_store fits]
  exact length_splice _ _ _ fits

theorem set_inside (v : ByteVec) (i : Nat) (value : UInt8) (inside : i < v.len) :
    v.set i value = .ok (v.store i [value]) := by
  unfold set
  rw [if_pos inside]
  congr 1
  ext1
  · have fits : i + [value].length ≤ v.len := inside
    rw [bytes_store fits]
    simp only [splice, List.length_singleton, List.set_eq_take_append_cons_drop]
    rw [if_pos (show i < v.bytes.length from inside), List.append_assoc, List.singleton_append]
  · rfl
  · rfl

theorem get_inside (v : ByteVec) (i : Nat) (inside : i < v.bytes.length) :
    v.get i = .ok v.bytes[i] := by
  simp only [get, List.getElem?_eq_getElem inside]

end ByteVec

/-- A byte slice argument: like every allocation, below `isize::MAX` bytes. -/
abbrev Slice := { bytes : List UInt8 // bytes.length < 2 ^ 63 }

def placed (start : Nat) : List UInt8 → List (Nat × UInt8)
  | [] => []
  | byte :: rest => (start, byte) :: placed (start + 1) rest

theorem mem_placed {start i : Nat} {src : List UInt8} {value : UInt8} :
    (i, value) ∈ placed start src ↔ ∃ j, i = start + j ∧ src[j]? = some value := by
  induction src generalizing start with
  | nil => simp [placed]
  | cons byte rest ih =>
    simp only [placed, List.mem_cons, Prod.mk.injEq, ih]
    constructor
    · rintro (⟨rfl, rfl⟩ | ⟨j, rfl, found⟩)
      · exact ⟨0, rfl, rfl⟩
      · exact ⟨j + 1, by omega, found⟩
    · rintro ⟨j, rfl, found⟩
      cases j with
      | zero => exact Or.inl ⟨rfl, (Option.some.inj found).symm⟩
      | succ j => exact Or.inr ⟨j, by omega, found⟩

/-- What one safe buffer operation asks of the storage. -/
inductive Change where
  | keep
  | store (start : Nat) (src : List UInt8)
  | resize (n : Nat)
  | reserve (additional : Nat)
  | shrink (n : Nat)
  | wipe
  | zeroize
  | clone
  deriving DecidableEq, Repr

def Change.writes : Change → List (Nat × UInt8)
  | .store start src => placed start src
  | _ => []

def storeIf (room : Prop) [Decidable room] (start : Nat) (src : List UInt8) : Change :=
  if room then .store start src else .keep

inductive Effect : ByteVec → Change → ByteVec → Prop
  | keep (v : ByteVec) : Effect v .keep v
  | store (v : ByteVec) (start : Nat) (src : List UInt8) (fits : start + src.length ≤ v.len) :
      Effect v (.store start src) (v.store start src)
  | resize (v w : ByteVec) (n : Nat) (done : v.resize n = .ok w) : Effect v (.resize n) w
  | reserve (v w : ByteVec) (n : Nat) (done : v.reserve n = .ok w) : Effect v (.reserve n) w
  | shrink (v : ByteVec) (n : Nat) : Effect v (.shrink n) (v.truncate n).shrinkToFit
  | wipe (v : ByteVec) : Effect v .wipe v.zeroizeSlice
  | zeroize (v : ByteVec) : Effect v .zeroize v.zeroize
  | clone (v : ByteVec) : Effect v .clone v.clone

namespace ByteVec

@[simp] theorem bytes_relocate (v : ByteVec) (cap : Nat) (room : v.len ≤ cap)
    (fits : cap < 2 ^ 63) : (v.relocate cap room fits).bytes = v.bytes := rfl

@[simp] theorem bytes_shrinkToFit (v : ByteVec) : v.shrinkToFit.bytes = v.bytes := by
  unfold shrinkToFit
  split_ifs <;> rfl

theorem spare_shrinkToFit (v : ByteVec) : v.shrinkToFit.spare = [] := by
  apply List.eq_nil_of_length_eq_zero
  unfold shrinkToFit
  by_cases larger : v.len < v.capacity
  · rw [if_pos larger, spare_relocate_length, Nat.sub_self]
  · rw [if_neg larger]
    simp only [len, capacity] at larger
    omega

theorem reserve_bytes {v w : ByteVec} {n : Nat} (done : v.reserve n = .ok w) :
    w.bytes = v.bytes := by
  rcases reserve_cases done with ⟨_, rfl⟩ | ⟨_, _, cap, room, fits, rfl⟩ <;> rfl

end ByteVec

/-- After any change, a byte of the data is zero, is one just stored at that index, or was
already there at that index. -/
theorem Effect.byte_cases {v w : ByteVec} {change : Change} (effect : Effect v change w)
    {i : Nat} {value : UInt8} (found : w.bytes[i]? = some value) :
    value = 0 ∨ (i, value) ∈ change.writes ∨ v.bytes[i]? = some value := by
  cases effect with
  | keep => exact Or.inr (Or.inr found)
  | store start src fits =>
    rw [ByteVec.bytes_store fits] at found
    rcases getElem?_splice_cases _ _ _ fits _ _ found with ⟨j, rfl, stored⟩ | old
    · exact Or.inr (Or.inl (mem_placed.mpr ⟨j, rfl, stored⟩))
    · exact Or.inr (Or.inr old)
  | resize _ n done =>
    rw [ByteVec.resize_bytes done, List.getElem?_append] at found
    split_ifs at found with early
    · rw [List.getElem?_take] at found
      split_ifs at found
      exact Or.inr (Or.inr found)
    · exact Or.inl (ByteVec.getElem?_zeros found)
  | reserve _ n done =>
    rw [ByteVec.reserve_bytes done] at found
    exact Or.inr (Or.inr found)
  | shrink n =>
    simp only [ByteVec.bytes_shrinkToFit, ByteVec.truncate, List.getElem?_take] at found
    split_ifs at found
    exact Or.inr (Or.inr found)
  | wipe => exact Or.inl (ByteVec.getElem?_zeros found)
  | zeroize => simp [ByteVec.zeroize] at found
  | clone => exact Or.inr (Or.inr found)

end Secbuf.Storage
