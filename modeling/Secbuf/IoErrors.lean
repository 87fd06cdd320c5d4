import Secbuf.ReadBounds
import Secbuf.RingStream

/-! What a failed call tells its caller. The error of every call is a function of the state and the
arguments; through `into_io` it becomes an error of the I/O library, with a kind and a text. -/

namespace Secbuf.IoErrors
open Calls Storage BufferCore BufferOps BufferScript Secbuf.Ring CircularBuffer RingFifo RingCursors

section
variable (b : Buffer)

end

section
variable {α : Type} {b : Buffer}

end

section
variable {size : Nat} {r : CircularBuffer}

end

/-! Through `into_io` and back. -/

end Secbuf.IoErrors
