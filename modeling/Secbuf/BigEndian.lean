import Mathlib.Algebra.Order.Ring.Nat
import Mathlib.Tactic.Positivity
import Mathlib.Tactic.Ring

/-! Fixed-width big-endian bytes of a natural number, most significant byte first. -/

namespace Secbuf.BigEndian

def bigEndian : Nat → Nat → List UInt8
  | 0, _ => []
  | width + 1, value => UInt8.ofNat (value / 256 ^ width) :: bigEndian width value

def ofBigEndian : List UInt8 → Nat
  | [] => 0
  | byte :: rest => byte.toNat * 256 ^ rest.length + ofBigEndian rest

@[simp] theorem length_bigEndian (width value : Nat) : (bigEndian width value).length = width := by
  induction width with
  | zero => rfl
  | succ width ih => simp only [bigEndian, List.length_cons, ih]

theorem ofBigEndian_lt (bytes : List UInt8) : ofBigEndian bytes < 256 ^ bytes.length := by
  induction bytes with
  | nil => simp [ofBigEndian]
  | cons byte rest ih =>
    have digit : byte.toNat < 256 := byte.toNat_lt
    calc ofBigEndian (byte :: rest)
        = byte.toNat * 256 ^ rest.length + ofBigEndian rest := rfl
      _ < byte.toNat * 256 ^ rest.length + 256 ^ rest.length := by omega
      _ = (byte.toNat + 1) * 256 ^ rest.length := by ring
      _ ≤ 256 * 256 ^ rest.length := Nat.mul_le_mul_right _ digit
      _ = 256 ^ (byte :: rest).length := by simp only [List.length_cons]; ring

/-- Only the value below `256 ^ width` is written. -/
theorem ofBigEndian_bigEndian (width value : Nat) :
    ofBigEndian (bigEndian width value) = value % 256 ^ width := by
  induction width with
  | zero => simp [bigEndian, ofBigEndian, Nat.mod_one]
  | succ width ih =>
    simp only [bigEndian, ofBigEndian, length_bigEndian, ih, UInt8.toNat_ofNat']
    rw [show (2 : Nat) ^ 8 = 256 by decide, pow_succ, Nat.mod_mul, Nat.mul_comm]
    omega

theorem bigEndian_add (width high low : Nat) :
    bigEndian width (high * 256 ^ width + low) = bigEndian width low := by
  suffices shifted : ∀ count, count ≤ width →
      bigEndian count (high * 256 ^ width + low) = bigEndian count low from shifted width le_rfl
  intro count bound
  induction count with
  | zero => rfl
  | succ count ih =>
    have split : high * 256 ^ width = high * 256 ^ (width - count - 1) * 256 * 256 ^ count := by
      rw [Nat.mul_assoc, Nat.mul_assoc, ← pow_succ', ← pow_add]
      congr 2
      omega
    simp only [bigEndian, ih (by omega), List.cons.injEq, and_true]
    rw [split, Nat.add_comm, Nat.add_mul_div_right _ _ (by positivity)]
    apply UInt8.toNat_inj.mp
    simp only [UInt8.toNat_ofNat']
    rw [show (2 : Nat) ^ 8 = 256 by decide]
    omega

theorem bigEndian_ofBigEndian (bytes : List UInt8) :
    bigEndian bytes.length (ofBigEndian bytes) = bytes := by
  induction bytes with
  | nil => rfl
  | cons byte rest ih =>
    have low := ofBigEndian_lt rest
    have lead : (byte.toNat * 256 ^ rest.length + ofBigEndian rest) / 256 ^ rest.length =
        byte.toNat := by
      rw [Nat.add_comm, Nat.add_mul_div_right _ _ (by positivity), Nat.div_eq_of_lt low,
        Nat.zero_add]
    simp only [List.length_cons, bigEndian, ofBigEndian, bigEndian_add, ih, lead,
      UInt8.ofNat_toNat]

end Secbuf.BigEndian
