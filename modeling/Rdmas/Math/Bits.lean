import Mathlib.Data.BitVec

/-! # Testing single bits and short fields of a machine word

Masking with a power of two observes exactly one bit, and a word below `2 ^ k` contributes nothing
from bit `k` on. Together they read a field back out of a word assembled by shifts and unions.
-/

namespace Bits

variable {w : ℕ}

theorem and_twoPow_ne_zero (word : BitVec w) (index : ℕ) :
    (word &&& BitVec.twoPow w index != 0) = word.getLsbD index := by
  rw [BitVec.and_twoPow]
  cases set : word.getLsbD index with
  | false => simp
  | true =>
    have bound : index < w := BitVec.lt_of_getLsbD set
    have nonzero : BitVec.twoPow w index ≠ 0 := by
      intro zero
      have bit := congrArg (fun value => value.getLsbD index) zero
      simp [bound] at bit
    simpa using nonzero

/-- Bits from the length of a short constant on are clear. -/
theorem getLsbD_of_lt {word : BitVec w} (length : ℕ) {index : ℕ} (short : word.toNat < 2 ^ length)
    (beyond : length ≤ index) : word.getLsbD index = false := by
  rw [← BitVec.testBit_toNat]
  exact Nat.testBit_lt_two_pow (lt_of_lt_of_le short (Nat.pow_le_pow_right (by decide) beyond))

end Bits
