import Secbuf.FastCustody
import Secbuf.ReleasedBlocks
import Secbuf.StandardPool

/-! The whole block behind a burned buffer. `burn` clears the vector's slice, so the part of
the block past it comes out as it went in; a shrinking `resize` is the one operation that
puts written bytes there. -/

namespace Secbuf.BurnedBlock
open Calls Storage BufferCore BufferScript Custody
open ReleasedBlocks (fresh fourBytes)

def AllZero (bytes : List UInt8) : Prop := ∀ value ∈ bytes, value = 0

def SpareClear (b : Buffer) : Prop := AllZero b.data.spare

theorem allZero_nil : AllZero [] := List.forall_mem_nil _

theorem allZero_zeros (n : Nat) : AllZero (ByteVec.zeros n) := fun _ => ByteVec.mem_zeros

theorem AllZero.append {first second : List UInt8} (left : AllZero first) (right : AllZero second) :
    AllZero (first ++ second) := fun value member =>
  (List.mem_append.mp member).elim (left value) (right value)

theorem AllZero.subset {first second : List UInt8} (clear : AllZero second) (sub : first ⊆ second) :
    AllZero first := fun value member => clear value (sub member)

theorem allZero_relocate {v : ByteVec} (clear : AllZero v.spare) {cap : Nat} (room : v.len ≤ cap)
    (fits : cap < 2 ^ 63) : AllZero (v.relocate cap room fits).spare :=
  (clear.subset (List.take_subset _ _)).append (allZero_zeros _)

theorem burn_block_iff (b : Buffer) : AllZero b.burn.data.block ↔ SpareClear b := by
  constructor
  · exact fun clear value member => clear value (List.mem_append_right _ member)
  · exact fun clear => (allZero_zeros _).append clear

/-- A `resize` that shortens the data cuts off zeros only. -/
def CutsOnlyZeros (b : Buffer) : BufferOp → Prop
  | .resize newSize => newSize ≤ BUF_MAX_SIZE → AllZero (b.data.bytes.drop newSize)
  | _ => True

theorem growTo_clear {b : Buffer} {n m : Nat} (same : growTo b n = .resize m) :
    AllZero (b.data.bytes.drop m) := by
  unfold growTo at same
  split_ifs at same with longer
  cases same
  have past : b.data.bytes.drop n = [] := List.drop_eq_nil_of_le longer.le
  rw [past]
  exact allZero_nil

theorem cuts_change {b : Buffer} {op : BufferOp} (cuts : CutsOnlyZeros b op) {n : Nat}
    (same : op.change b = .resize n) : AllZero (b.data.bytes.drop n) := by
  have noStore : ∀ (room : Prop) [Decidable room] (start : Nat) (src : List UInt8),
      storeIf room start src ≠ .resize n := by
    intro room _ start src
    unfold storeIf
    split_ifs <;> simp
  cases op with
  | resize newSize =>
    simp only [BufferOp.change] at same
    split_ifs at same with big
    cases same
    exact cuts (by omega)
  | setLen len =>
    simp only [BufferOp.change] at same
    split_ifs at same
    exact growTo_clear same
  | incrLen incr =>
    simp only [BufferOp.change] at same
    split_ifs at same
    exact growTo_clear same
  | incrWritePos incr =>
    simp only [BufferOp.change] at same
    split_ifs at same
    exact growTo_clear same
  | putString s =>
    simp only [BufferOp.change] at same
    split_ifs at same
    exact absurd same (noStore _ _ _)
  | asMutSlice offset src => exact absurd same (noStore _ _ _)
  | putByte val => exact absurd same (noStore _ _ _)
  | putU32 val => exact absurd same (noStore _ _ _)
  | putU64 val => exact absurd same (noStore _ _ _)
  | putBytes bytes => exact absurd same (noStore _ _ _)
  | putBytesFast target bytes => exact absurd same (noStore _ _ _)
  | getWritePtr len offset src => exact absurd same (noStore _ _ _)
  | _ => cases same

theorem effect_spare {v w : ByteVec} {change : Change} (effect : Effect v change w)
    (clear : AllZero v.spare) (cuts : ∀ n, change = .resize n → AllZero (v.bytes.drop n)) :
    AllZero w.spare := by
  cases effect with
  | keep => exact clear
  | store => exact clear
  | resize _ n done =>
    rcases ByteVec.resize_cases done with ⟨-, rfl⟩ | ⟨-, -, rfl⟩ | ⟨-, cap, room, fits, -, rfl⟩
    · exact (cuts n rfl).append clear
    · exact clear.subset (List.drop_subset _ _)
    · exact (allZero_relocate clear room fits).subset (List.drop_subset _ _)
  | reserve _ n done =>
    rcases ByteVec.reserve_cases done with ⟨-, rfl⟩ | ⟨-, -, cap, room, fits, rfl⟩
    · exact clear
    · exact allZero_relocate clear room fits
  | shrink n =>
    rw [ByteVec.spare_shrinkToFit]
    exact allZero_nil
  | wipe => exact clear
  | zeroize => exact allZero_zeros _
  | clone => exact allZero_nil

structure Tidy (b : Buffer) : Prop where
  valid : Valid b
  spare : SpareClear b

theorem tidy_step {b t : Buffer} (tidy : Tidy b) {op : BufferOp} (cuts : CutsOnlyZeros b op)
    (stepped : Stepped b op t) : Tidy t := by
  obtain ⟨valid, effect⟩ := step_lands tidy.valid op t stepped
  exact ⟨valid, effect_spare effect tidy.spare fun _ => cuts_change cuts⟩

theorem tidy_run {start b : Buffer} (tidy : Tidy start)
    (run : Reaches (Guarded CutsOnlyZeros Stepped) start b) : Tidy b :=
  run.keeps tidy fun _ _ _ holds ⟨cuts, stepped⟩ => tidy_step holds cuts stepped

theorem tidy_new {size : Nat} {b : Buffer} (made : Buffer.new size = .ok b) : Tidy b := by
  refine ⟨(Made.new made).valid, ?_⟩
  obtain ⟨-, -, spare, -⟩ := Buffer.new_cases made
  rw [SpareClear, spare]
  exact allZero_nil

structure Idle (b : Buffer) : Prop where
  valid : Valid b
  block : AllZero b.data.block

theorem idle_new {size : Nat} {b : Buffer} (made : Buffer.new size = .ok b) : Idle b := by
  obtain ⟨-, bytes, -⟩ := Buffer.new_cases made
  have tidy := tidy_new made
  have data : AllZero b.data.bytes := bytes ▸ allZero_zeros size
  exact ⟨tidy.valid, data.append tidy.spare⟩

theorem idle_burn {b : Buffer} (tidy : Tidy b) : Idle b.burn :=
  ⟨⟨le_rfl, Nat.zero_le _⟩, (burn_block_iff b).mpr tidy.spare⟩

def residue : Rules where
  ready _ := Idle
  stashed := Idle
  owned _ := Tidy
  uses := CutsOnlyZeros
  returns _ _ := True
  fresh := idle_new
  handed idle := ⟨idle.valid, fun value member => idle.block value (List.mem_append_right _ member)⟩
  used tidy cuts stepped := tidy_step tidy cuts stepped
  burned tidy _ := ⟨idle_burn tidy, idle_burn tidy⟩

section
open StandardPool
variable {ι : Type}

/-- Holders keep what they use, and what they put in its place, clear past the data. -/
def StandardTidy (s : World ι) : StandardPool.Action ι → Prop
  | .use i op => ∀ handle, s.held[i]? = some handle → CutsOnlyZeros handle.buffer op
  | .replace _ b => Tidy b
  | _ => True

theorem standardTidy_allows {s : World ι} {action : StandardPool.Action ι}
    (tidy : StandardTidy s action) : allows residue s action := by
  cases action with
  | drop i => exact fun _ _ _ _ _ => trivial
  | use i op => exact tidy
  | replace i b => exact fun _ _ _ _ => tidy
  | _ => trivial

end

section
open FastPool
variable {ι θ : Type}

def FastTidy (s : World ι θ) : FastPool.Action ι θ → Prop
  | .use i op => ∀ handle, s.held[i]? = some handle → CutsOnlyZeros handle.item.buffer op
  | .replace _ b => Tidy b
  | _ => True

theorem fastTidy_allows {s : World ι θ} (kept : Kept residue s) {action : FastPool.Action ι θ}
    (tidy : FastTidy s action) : allows residue s action := by
  cases action with
  | drop t i => exact fun _ _ _ _ => trivial
  | use i op => exact tidy
  | replace i b => exact fun _ _ _ _ => tidy
  | advance t => exact allows_advance kept (fun _ _ idle => idle) t
  | _ => trivial

end

/-- In every run that starts with nothing past the data and whose shrinking resizes cut off
zeros only, `burn` leaves the whole block zero (in any state at all, it does so exactly when
nothing but zeros lies past the data); and where the holders of pooled buffers keep to that,
every idle buffer's whole block is zero. -/
theorem burned_block_zero {ι θ : Type} [DecidableEq ι] [DecidableEq θ] :
    (∀ start b, Made start → SpareClear start → Reaches (Guarded CutsOnlyZeros Stepped) start b →
      AllZero b.burn.data.block) ∧
    (∀ b, AllZero b.burn.data.block ↔ SpareClear b) ∧
    (∀ s : StandardPool.World ι,
      Reaches (Guarded StandardTidy StandardPool.Taken) StandardPool.World.empty s →
      ∀ p pool, s.pools p = some pool → ∀ b ∈ pool.buffers, AllZero b.data.block) ∧
    ∀ s : FastPool.World ι θ,
      Reaches (Guarded FastTidy FastPool.Taken) FastPool.World.empty s →
      (∀ p pool, s.pools p = some pool →
        ∀ item ∈ pool.globalPool.items, AllZero item.buffer.data.block) ∧
      ∀ t, ∀ item ∈ s.caches t, AllZero item.buffer.data.block := by
  refine ⟨?_, burn_block_iff, ?_, ?_⟩
  · intro start b made clear run
    exact (burn_block_iff b).mpr (tidy_run ⟨made.valid, clear⟩ run).spare
  · intro s run p pool here b member
    have kept : StandardPool.Kept residue s :=
      StandardPool.kept_run run fun _ _ _ _ taken => ⟨standardTidy_allows taken.1, taken.2⟩
    exact (kept.idle p pool here b member).block
  · intro s run
    have kept : FastPool.Kept residue s :=
      FastPool.kept_run run fun _ _ _ kept taken => ⟨fastTidy_allows kept taken.1, taken.2⟩
    exact ⟨fun p pool here item member => (kept.idle p pool here item member).block,
      fun t item member => (kept.cached t item member).block⟩

theorem burned_block_zero_grown :
    ∃ b, exec (fun b op => (step op b).state?) fresh [.putBytes fourBytes, .setLen 5] = some b ∧
      AllZero b.burn.data.block := by
  have made : Made fresh := .new (show Buffer.new 4 = .ok fresh from rfl)
  have meets : Meets (fun b op => (step op b).state?) CutsOnlyZeros fresh
      [.putBytes fourBytes, .setLen 5] := ⟨trivial, trivial, trivial⟩
  obtain ⟨b, script⟩ : ∃ b, exec (fun b op => (step op b).state?) fresh
      [.putBytes fourBytes, .setLen 5] = some b := ⟨_, rfl⟩
  exact ⟨b, script,
    (@burned_block_zero Unit Unit _ _).1 fresh b made allZero_nil (.of_script script meets)⟩

/-- Four bytes written and the data cut to two: `burn` leaves the other two in the block, and
in the pool the handle gives the buffer back to. -/
theorem burned_block_residue :
    Buffer.new 4 = .ok fresh ∧
      (∃ b, exec (fun b op => (step op b).state?) fresh [.putBytes fourBytes, .resize 2] =
          some b ∧
        b.burn.data.block = [0, 0, 3, 4] ∧ ¬ AllZero b.burn.data.block) ∧
      ∃ s : StandardPool.World Unit, ∃ pool b,
        exec StandardPool.next StandardPool.World.empty
          [.new () ⟨4, 1, 0⟩, .acquire (), .use 0 (.putBytes fourBytes), .use 0 (.resize 2),
            .drop 0] = some s ∧
        s.pools () = some pool ∧ pool.buffers = [b] ∧ b.data.block = [0, 0, 3, 4] :=
  ⟨rfl, ⟨_, rfl, rfl, fun clear => absurd (clear 3 (by decide)) (by decide)⟩,
    _, _, _, rfl, rfl, rfl, rfl⟩

end Secbuf.BurnedBlock
