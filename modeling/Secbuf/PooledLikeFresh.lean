import Secbuf.Lookalikes
import Secbuf.PoolIsolation
import Secbuf.PoolSizes
import Secbuf.FastPanics

/-! What pooling may cost its users: nothing they can see. A buffer that comes back from a pool has
been burned, so all it can keep of its past is the size of its data; where that is the size the
pool makes them in, no holder can tell it from a buffer just made. -/

namespace Secbuf.PooledLikeFresh
open Calls Storage BufferCore BufferOps BufferScript Custody PairedCalls Lookalikes
open PoolSizes (Plain plain_len burn_len)

section
variable {config : PoolConfig} {b c fresh : Buffer}

/-- Filling a blank buffer to a given size tells whether its data has that size. -/
def fill (n : Nat) (small : n < 2 ^ 63) : Client BufferOp (Except BufferError Reply) :=
  .ask (.putBytes ⟨ByteVec.zeros n, by rw [ByteVec.zeros_length]; exact small⟩) fun _ => .done

end

/-! The mutex-based pool. -/

section
open StandardPool
variable {ι : Type}

variable [DecidableEq ι]

end

/-! The lock-free pool. A thread's cache serves all pools, so they have to agree on the size. -/

section
open FastPool
variable {ι θ : Type} {size : Nat}

variable {s u : World ι θ}

variable [DecidableEq ι] [DecidableEq θ]

end

end Secbuf.PooledLikeFresh
