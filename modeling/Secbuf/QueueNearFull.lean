import Secbuf.Connection

/-! The warning of a queue that is nearly full. Four fifths of a limit are computed in machine
words, rounded down, and have to be passed; the two limits are tested one by one. -/

namespace Secbuf.QueueNearFull
open Calls Storage BufferCore Connection ConnectionBuffers

def AtLeast (used limit : Nat) : Prop := 80 * limit ≤ 100 * used

def Above (used limit : Nat) : Prop := 80 * limit < 100 * used

def Exactly (used limit : Nat) : Prop := 100 * used = 80 * limit

/-- The products that a call computes: `||` goes on to the second only where the first test fails. -/
def products (c : ConnectionBuffers) : List Nat :=
  c.config.maxPacketQueueSize * 80 ::
    if c.packetQueueLen > usizeMul c.config.maxPacketQueueSize 80 / 100 then []
    else [c.config.maxPacketQueueBytes * 80]

/-- What is asked of the warning: it is given at 80 percent of either limit, and computing it
overflows nowhere. -/
structure Exact (c : ConnectionBuffers) : Prop where
  near_iff : c.isQueueNearFull = true ↔
    AtLeast c.packetQueueLen c.config.maxPacketQueueSize ∨
      AtLeast c.packetQueueBytes c.config.maxPacketQueueBytes
  fit : ∀ product ∈ products c, product < 2 ^ 64

/-- One of the two is at 80 percent to the point, and the other does not give the warning. -/
def OnTheEdge (c : ConnectionBuffers) : Prop :=
  (Exactly c.packetQueueLen c.config.maxPacketQueueSize ∧
      ¬ Above c.packetQueueBytes c.config.maxPacketQueueBytes) ∨
    (Exactly c.packetQueueBytes c.config.maxPacketQueueBytes ∧
      ¬ Above c.packetQueueLen c.config.maxPacketQueueSize)

/-- Rounding down and passing the result is passing 80 percent. -/
theorem passes_iff {used limit : Nat} (fits : limit * 80 < 2 ^ 64) :
    used > usizeMul limit 80 / 100 ↔ Above used limit := by
  rw [usizeMul_of_lt fits, Above]
  omega

theorem fit_iff (c : ConnectionBuffers) : (∀ product ∈ products c, product < 2 ^ 64) ↔
    c.config.maxPacketQueueSize * 80 < 2 ^ 64 ∧
      (¬ Above c.packetQueueLen c.config.maxPacketQueueSize →
        c.config.maxPacketQueueBytes * 80 < 2 ^ 64) := by
  rw [products, List.forall_mem_cons]
  apply and_congr_right
  intro size
  by_cases above : Above c.packetQueueLen c.config.maxPacketQueueSize
  · rw [if_pos ((passes_iff size).mpr above)]
    exact iff_of_true (List.forall_mem_nil _) fun below => absurd above below
  · rw [if_neg (mt (passes_iff size).mp above), List.forall_mem_singleton]
    exact (imp_iff_right above).symm

theorem near_iff_above {c : ConnectionBuffers} (size : c.config.maxPacketQueueSize * 80 < 2 ^ 64)
    (bytes : ¬ Above c.packetQueueLen c.config.maxPacketQueueSize →
      c.config.maxPacketQueueBytes * 80 < 2 ^ 64) :
    c.isQueueNearFull = true ↔ Above c.packetQueueLen c.config.maxPacketQueueSize ∨
      Above c.packetQueueBytes c.config.maxPacketQueueBytes := by
  have first : c.packetQueue.length > usizeMul c.config.maxPacketQueueSize 80 / 100 ↔
      Above c.packetQueueLen c.config.maxPacketQueueSize := passes_iff size
  rw [isQueueNearFull, Bool.or_eq_true, decide_eq_true_iff, decide_eq_true_iff, first]
  by_cases above : Above c.packetQueueLen c.config.maxPacketQueueSize
  · exact iff_of_true (Or.inl above) (Or.inl above)
  · rw [passes_iff (bytes above)]

/-- In every state and for every pair of limits, the warning is exact where no product that is
computed overflows and no limit is at 80 percent to the point with nothing else to give it. -/
theorem near_full_exact_iff (c : ConnectionBuffers) :
    Exact c ↔ c.config.maxPacketQueueSize * 80 < 2 ^ 64 ∧
      (¬ Above c.packetQueueLen c.config.maxPacketQueueSize →
        c.config.maxPacketQueueBytes * 80 < 2 ^ 64) ∧ ¬ OnTheEdge c := by
  constructor
  · intro exact
    obtain ⟨size, bytes⟩ := (fit_iff c).mp exact.fit
    have near := exact.near_iff
    rw [near_iff_above size bytes] at near
    refine ⟨size, bytes, ?_⟩
    simp only [OnTheEdge, Exactly, Above, AtLeast] at near ⊢
    omega
  · rintro ⟨size, bytes, inside⟩
    refine ⟨?_, (fit_iff c).mpr ⟨size, bytes⟩⟩
    rw [near_iff_above size bytes]
    simp only [OnTheEdge, Exactly, Above, AtLeast] at inside ⊢
    omega

def emptyPacket : Buffer := .fromVec ⟨[], [], [], Nat.two_pow_pos 63⟩

/-- Four packets of five give no warning; and with room for 2^60 packets, where the product is a
multiple of 2^64, the first one gives it. -/
theorem near_full_misjudged :
    (∃ c, exec next (withConfig ⟨5, 1000⟩) [.queuePacket emptyPacket, .queuePacket emptyPacket,
        .queuePacket emptyPacket, .queuePacket emptyPacket] = some c ∧
      AtLeast c.packetQueueLen c.config.maxPacketQueueSize ∧ c.isQueueNearFull = false ∧ ¬ Exact c) ∧
    ∃ c, exec next (withConfig ⟨2 ^ 60, 1000⟩) [.queuePacket emptyPacket] = some c ∧
      ¬ AtLeast c.packetQueueLen c.config.maxPacketQueueSize ∧
      ¬ AtLeast c.packetQueueBytes c.config.maxPacketQueueBytes ∧ c.isQueueNearFull = true ∧
      ¬ Exact c := by
  constructor
  · obtain ⟨c, script, full, quiet⟩ : ∃ c, exec next (withConfig ⟨5, 1000⟩)
        [.queuePacket emptyPacket, .queuePacket emptyPacket, .queuePacket emptyPacket,
          .queuePacket emptyPacket] = some c ∧
        AtLeast c.packetQueueLen c.config.maxPacketQueueSize ∧ c.isQueueNearFull = false :=
      ⟨_, rfl, le_rfl, rfl⟩
    refine ⟨c, script, full, quiet, fun exact => ?_⟩
    rw [exact.near_iff.mpr (Or.inl full)] at quiet
    cases quiet
  · obtain ⟨c, script, few, light, warns⟩ : ∃ c, exec next (withConfig ⟨2 ^ 60, 1000⟩)
        [.queuePacket emptyPacket] = some c ∧
        ¬ AtLeast c.packetQueueLen c.config.maxPacketQueueSize ∧
        ¬ AtLeast c.packetQueueBytes c.config.maxPacketQueueBytes ∧ c.isQueueNearFull = true :=
      ⟨_, rfl, by unfold AtLeast; decide, by unfold AtLeast; decide, rfl⟩
    refine ⟨c, script, few, light, warns, fun exact => ?_⟩
    exact (exact.near_iff.mp warns).elim few light

end Secbuf.QueueNearFull
