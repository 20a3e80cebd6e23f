import Mathlib.Tactic.IntervalCases
import Rdmas.Math.Bits

/-! # The combined lock word of a bucket

`HashBucket::lock_version` packs a 32-bit version, a 24-bit lease timestamp, and the mode,
tombstone and locked bits. The engine builds such words by shifts and unions in several places;
`pack` is their common shape, and its five observations are proved here once.
-/

namespace Rdmas.Model

/-- Dual-mode storage selector; the discriminants are those of the source. -/
inductive BucketMode where
  | inline
  | extent
deriving DecidableEq, Repr

/-- `mode as u64`. -/
def BucketMode.toU64 : BucketMode → BitVec 64
  | .inline => 0
  | .extent => 1

/-- Default lease timeout in milliseconds. -/
def leaseTimeoutMs : BitVec 32 := 100

namespace LockWord

variable (word : BitVec 64)

def isLocked : Bool := word &&& 0x01#64 != 0

def isTombstone : Bool := word &&& 0x02#64 != 0

def isExtent : Bool := word &&& 0x04#64 != 0

/-- The 32-bit version counter in bits `[63..32]`. -/
def version : BitVec 32 := (word >>> 32).setWidth 32

/-- The 24-bit lease timestamp in bits `[31..8]`. -/
def leaseTs : BitVec 32 := ((word >>> 8) &&& 0xFFFFFF#64).setWidth 32

/-- The mode bit as the selector it encodes. -/
def mode : BucketMode := if isExtent word then .extent else .inline

/-- The common shape of every word the engine stores. -/
def pack (version leaseTs : BitVec 32) (mode : BucketMode) (state : BitVec 64) : BitVec 64 :=
  (version.setWidth 64 <<< 32) ||| ((leaseTs.setWidth 64 &&& 0xFFFFFF#64) <<< 8) |||
    (mode.toU64 <<< 2) ||| state

theorem isLocked_eq : isLocked word = word.getLsbD 0 :=
  Bits.and_twoPow_ne_zero word 0

theorem isTombstone_eq : isTombstone word = word.getLsbD 1 :=
  Bits.and_twoPow_ne_zero word 1

theorem isExtent_eq : isExtent word = word.getLsbD 2 :=
  Bits.and_twoPow_ne_zero word 2

theorem mode_bit : word &&& 0x04#64 = (mode word).toU64 <<< 2 := by
  rw [mode, isExtent_eq, show 0x04#64 = BitVec.twoPow 64 2 from rfl, BitVec.and_twoPow]
  cases word.getLsbD 2 <;> rfl

theorem toU64_lt (mode : BucketMode) : (mode.toU64 <<< 2).toNat < 2 ^ 3 := by
  cases mode <;> decide

/-- A word of mode bits only is neither locked nor a tombstone, and keeps its mode. -/
theorem isLocked_modeBits (mode : BucketMode) : isLocked (mode.toU64 <<< 2) = false := by
  cases mode <;> decide

theorem isTombstone_modeBits (mode : BucketMode) : isTombstone (mode.toU64 <<< 2) = false := by
  cases mode <;> decide

theorem mode_modeBits (mode : BucketMode) : LockWord.mode (mode.toU64 <<< 2) = mode := by
  cases mode <;> decide

section Pack

variable (version leaseTs : BitVec 32) (mode : BucketMode) {state : BitVec 64}

theorem isLocked_pack : isLocked (pack version leaseTs mode state) = isLocked state := by
  simp only [isLocked_eq, pack, BitVec.getLsbD_or, BitVec.getLsbD_shiftLeft]
  simp

theorem isTombstone_pack : isTombstone (pack version leaseTs mode state) = isTombstone state := by
  simp only [isTombstone_eq, pack, BitVec.getLsbD_or, BitVec.getLsbD_shiftLeft]
  simp

theorem isExtent_pack (small : state.toNat < 4) :
    isExtent (pack version leaseTs mode state) = isExtent (mode.toU64 <<< 2) := by
  have clear : state.getLsbD 2 = false := Bits.getLsbD_of_lt 2 small le_rfl
  simp only [isExtent_eq, pack, BitVec.getLsbD_or, clear, Bool.or_false]
  simp only [BitVec.getLsbD_shiftLeft]
  simp

/-- The stored mode is the selector that was packed. -/
theorem mode_pack (small : state.toNat < 4) : LockWord.mode (pack version leaseTs mode state) = mode := by
  rw [LockWord.mode, isExtent_pack _ _ _ small]
  cases mode <;> rfl

theorem version_pack (small : state.toNat < 4) :
    LockWord.version (pack version leaseTs mode state) = version := by
  apply BitVec.eq_of_getLsbD_eq
  intro index bound
  have stateClear : state.getLsbD (32 + index) = false :=
    Bits.getLsbD_of_lt 2 small (by omega)
  have modeClear : (mode.toU64 <<< 2).getLsbD (32 + index) = false :=
    Bits.getLsbD_of_lt 3 (toU64_lt mode) (by omega)
  have maskClear : (0xFFFFFF#64).getLsbD (32 + index - 8) = false :=
    Bits.getLsbD_of_lt 24 (by decide) (by omega)
  simp only [LockWord.version, pack, BitVec.getLsbD_setWidth, BitVec.getLsbD_ushiftRight,
    BitVec.getLsbD_or, stateClear, modeClear, Bool.or_false]
  simp only [BitVec.getLsbD_shiftLeft, BitVec.getLsbD_and, maskClear, BitVec.getLsbD_setWidth]
  simp [bound, show index < 64 by omega, show 32 + index < 64 by omega, show ¬ 32 + index < 32 by omega]

/-- Only the low 24 bits of a timestamp are kept. -/
theorem leaseTs_pack (small : state.toNat < 4) :
    LockWord.leaseTs (pack version leaseTs mode state) = leaseTs &&& 0xFFFFFF#32 := by
  apply BitVec.eq_of_getLsbD_eq
  intro index bound
  have stateClear : state.getLsbD (8 + index) = false :=
    Bits.getLsbD_of_lt 2 small (by omega)
  have modeClear : (mode.toU64 <<< 2).getLsbD (8 + index) = false :=
    Bits.getLsbD_of_lt 3 (toU64_lt mode) (by omega)
  simp only [LockWord.leaseTs, pack, BitVec.getLsbD_setWidth, BitVec.getLsbD_ushiftRight,
    BitVec.getLsbD_and, BitVec.getLsbD_or, stateClear, modeClear, Bool.or_false]
  by_cases inside : index < 24
  · have narrow : (0xFFFFFF#64).getLsbD index = (0xFFFFFF#32).getLsbD index := by
      interval_cases index <;> rfl
    simp only [BitVec.getLsbD_shiftLeft, BitVec.getLsbD_and, BitVec.getLsbD_setWidth,
      Nat.add_sub_cancel_left, narrow]
    simp [bound, show index < 64 by omega, show 8 + index < 64 by omega,
      show 8 + index < 32 by omega]
  · have clear64 : (0xFFFFFF#64).getLsbD index = false :=
      Bits.getLsbD_of_lt 24 (by decide) (by omega)
    have clear32 : (0xFFFFFF#32).getLsbD index = false :=
      Bits.getLsbD_of_lt 24 (by decide) (by omega)
    simp [clear64, clear32]

end Pack

/-- Masking the upper half is the same as shifting it down and back. -/
theorem upper_half : word &&& 0xFFFFFFFF00000000#64 = (version word).setWidth 64 <<< 32 := by
  apply BitVec.eq_of_getLsbD_eq
  intro index bound
  simp only [version, BitVec.getLsbD_and, BitVec.getLsbD_shiftLeft, BitVec.getLsbD_setWidth,
    BitVec.getLsbD_ushiftRight]
  by_cases low : index < 32
  · have clear : (0xFFFFFFFF00000000#64).getLsbD index = false := by interval_cases index <;> rfl
    simp [low, clear]
  · have set : (0xFFFFFFFF00000000#64).getLsbD index = true := by
      have lower : 32 ≤ index := by omega
      interval_cases index <;> rfl
    simp [low, set, bound, show index - 32 < 32 by omega, show index - 32 < 64 by omega,
      show 32 + (index - 32) = index by omega]

end LockWord

end Rdmas.Model
