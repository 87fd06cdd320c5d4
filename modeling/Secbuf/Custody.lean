import Secbuf.BufferScript

/-! What both pools share: their configuration, and the bookkeeping of what is known about a
buffer by who has it. A buffer is fresh, idle, or owned by a holder; the rules say how that
knowledge passes from one to the next, and each pool's invariant is proved once for all of
them. -/

namespace Secbuf.Custody
open Calls Storage BufferCore BufferScript

structure PoolConfig where
  bufferSize : Nat
  maxPoolSize : Nat
  minPoolSize : Nat
  deriving DecidableEq, Repr

structure Rules where
  /-- Known of a buffer that a pool of this configuration may hand out. -/
  ready : PoolConfig → Buffer → Prop
  /-- Known of a buffer in a cache, which belongs to no pool. -/
  stashed : Buffer → Prop
  /-- Known of a buffer acquired from a pool of this configuration. -/
  owned : PoolConfig → Buffer → Prop
  /-- What holders may do, and the buffers they may give back. -/
  uses : Buffer → BufferOp → Prop
  returns : PoolConfig → Buffer → Prop
  fresh : ∀ {config b}, Buffer.new config.bufferSize = .ok b → ready config b
  handed : ∀ {config b}, ready config b → owned config b
  used : ∀ {config b op t}, owned config b → uses b op → Stepped b op t → owned config t
  burned : ∀ {config b}, owned config b → returns config b →
    ready config b.burn ∧ stashed b.burn

def pushFresh (size : Nat) : Nat → List Buffer → Except Fault (List Buffer)
  | 0, buffers => .ok buffers
  | count + 1, buffers =>
    match Buffer.new size with
    | .ok buffer => pushFresh size count (buffers ++ [buffer])
    | .error reason => .error reason

theorem pushFresh_cases {size count : Nat} {buffers all : List Buffer}
    (done : pushFresh size (count + 1) buffers = .ok all) :
    ∃ buffer, Buffer.new size = .ok buffer ∧
      pushFresh size count (buffers ++ [buffer]) = .ok all := by
  cases made : Buffer.new size with
  | error reason => simp [pushFresh, made] at done
  | ok buffer =>
    simp only [pushFresh, made] at done
    exact ⟨buffer, rfl, done⟩

theorem pushFresh_mem {size count : Nat} {buffers all : List Buffer}
    (done : pushFresh size count buffers = .ok all) {b : Buffer} (member : b ∈ all) :
    b ∈ buffers ∨ Buffer.new size = .ok b := by
  induction count generalizing buffers with
  | zero =>
    cases done
    exact Or.inl member
  | succ count ih =>
    obtain ⟨buffer, made, later⟩ := pushFresh_cases done
    rcases ih later with early | same
    · rcases List.mem_append.mp early with old | last
      · exact Or.inl old
      · exact Or.inr (by rw [List.mem_singleton.mp last, made])
    · exact Or.inr same

theorem pushFresh_length {size count : Nat} {buffers all : List Buffer}
    (done : pushFresh size count buffers = .ok all) : all.length = buffers.length + count := by
  induction count generalizing buffers with
  | zero =>
    cases done
    rfl
  | succ count ih =>
    obtain ⟨buffer, -, later⟩ := pushFresh_cases done
    rw [ih later, List.length_append, List.length_singleton]
    omega

theorem pushFresh_total {size : Nat} (small : size ≤ BUF_MAX_SIZE) (count : Nat)
    (buffers : List Buffer) : ∃ all, pushFresh size count buffers = .ok all := by
  obtain ⟨buffer, made, -⟩ := Buffer.new_of_le small
  induction count generalizing buffers with
  | zero => exact ⟨buffers, rfl⟩
  | succ count ih =>
    rw [pushFresh, made]
    exact ih (buffers ++ [buffer])

/-- A call on a pool: one that may change it, or a look at its figures. -/
inductive Request (α ι : Type) where
  | act (action : α)
  | available (p : ι)
  | stats (p : ι)
  deriving DecidableEq

def Request.weigh {α ι : Type} (weight : α → Nat) : Request α ι → Nat
  | .act action => weight action
  | _ => 0

inductive Looks {α ι : Type} (p : ι) : Request α ι → Prop
  | available : Looks p (.available p)
  | stats : Looks p (.stats p)

/-- A handle: the buffer and the pool it goes back to. -/
structure Handle (ι : Type) where
  pool : ι
  buffer : Buffer
  deriving DecidableEq

end Secbuf.Custody
