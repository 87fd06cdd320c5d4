import Secbuf.SafeFaults
import Secbuf.TwoRuns

/-! Two buffers with the same data and the same cursors. They may differ in the room behind the data
and in the blocks they have given back, and no safe call, of a reader or of a writer, can tell. -/

namespace Secbuf.Lookalikes
open Calls BigEndian Splice Storage BufferCore BufferOps BufferScript PairedCalls TwoRuns SafeFaults
open ReadBounds (getBytes_wrapped)

structure Lookalike (b c : Buffer) : Prop where
  first : Valid b
  second : Valid c
  bytes_eq : b.data.bytes = c.data.bytes
  pos_eq : b.pos = c.pos
  len_eq : b.len = c.len

abbrev SameCursor (b c : Buffer) : Prop := b.pos = c.pos ∧ b.len = c.len

abbrev SameReply {α : Type} : Outcome Buffer BufferError α → Outcome Buffer BufferError α → Prop :=
  Paired False Eq Eq SameCursor

section
variable {α : Type} {b c : Buffer}

theorem Lookalike.room (like : Lookalike b c) : b.data.len = c.data.len :=
  congrArg List.length like.bytes_eq

theorem Lookalike.alike (like : Lookalike b c) : Alike b c := by
  refine ⟨like.first, like.second, like.pos_eq, like.len_eq, ?_⟩
  rw [like.bytes_eq, like.len_eq]

theorem Lookalike.refused (like : Lookalike b c) (error : BufferError) :
    SameReply (.err error b : Outcome Buffer BufferError α) (.err error c) :=
  .err rfl ⟨like.pos_eq, like.len_eq⟩

end

end Secbuf.Lookalikes
