import Rdmas.Math.CheckedMemory
import Rdmas.Model.Bootstrap

/-! # Fixed-size chunks

The slab allocator of `engine/slab.rs`. Chunks come from the stack of freed ones, else from the bump index.
Which chunks are handed out is not recorded; the counts are differences, which the source leaves to the
overflow check, and so is the offset of a chunk. An outer `none` is a call that panics.
-/

namespace Rdmas.Model

open CheckedMemory

/-- `(val + align - 1) & !(align - 1)` in 64-bit words, as a build without overflow checks computes it. -/
def wrappingAlignUp (val align : BitVec 64) : BitVec 64 := (val + align - 1) &&& ~~~(align - 1)

namespace SlabAllocator

variable (slab : SlabAllocator)

/-- Take the chunk freed last, else the next one that was never handed out. -/
def allocateChunk : SlabAllocator × Option ℕ :=
  match slab.freeChunks.getLast? with
  | some idx => ({ slab with freeChunks := slab.freeChunks.dropLast }, some idx)
  | none =>
      if slab.nextChunk < slab.totalChunks then
        ({ slab with nextChunk := slab.nextChunk + 1 }, some slab.nextChunk)
      else (slab, none)

def freeChunk (chunkIndex : ℕ) : SlabAllocator :=
  { slab with freeChunks := slab.freeChunks ++ [chunkIndex] }

def allocatedCount : Option ℕ := difference slab.nextChunk slab.freeChunks.length

def freeCount : Option ℕ := do
  let allocated ← slab.allocatedCount
  difference slab.totalChunks allocated

/-- The byte offset of a chunk in the region. -/
def chunkOffset (chunkIndex : ℕ) : Option ℕ := product 64 chunkIndex slab.chunkSize

end SlabAllocator

/-- Clearing the low three bits of a word rounds it down to a multiple of 8. -/
theorem toNat_and_not_seven (word : BitVec 64) :
    (word &&& ~~~(7#64)).toNat = word.toNat - word.toNat % 8 := by
  have shifted : word &&& ~~~(7#64) = (word >>> 3) <<< 3 := by
    apply BitVec.eq_of_getLsbD_eq
    intro index bound
    simp only [BitVec.getLsbD_and, BitVec.getLsbD_not, BitVec.getLsbD_shiftLeft,
      BitVec.getLsbD_ushiftRight]
    by_cases low : index < 3
    · have set : (7#64).getLsbD index = true := by interval_cases index <;> rfl
      simp [set, low]
    · have clear : (7#64).getLsbD index = false := Bits.getLsbD_of_lt 3 (by decide) (by omega)
      rw [clear]
      simp [low, bound, show 3 + (index - 3) = index by omega]
  have small := word.isLt
  rw [shifted, BitVec.toNat_shiftLeft, BitVec.toNat_ushiftRight, Nat.shiftRight_eq_div_pow,
    Nat.shiftLeft_eq]
  omega

/-- Rounding up to 8 does not show that its first sum wraps for the last multiple of 8. -/
theorem toNat_wrappingAlignUp {val : ℕ} (fits : val + 7 < 2 ^ 64) :
    (wrappingAlignUp (BitVec.ofNat 64 val) 8).toNat = alignUp val 8 := by
  have sum : (BitVec.ofNat 64 val + 8 - 1).toNat = val + 7 := by
    simp only [BitVec.ofNat_eq_ofNat, BitVec.toNat_sub, BitVec.toNat_add, BitVec.toNat_ofNat]
    omega
  have mask : (val + 7) &&& 7 = (val + 7) % 8 := Nat.and_two_pow_sub_one_eq_mod _ 3
  rw [wrappingAlignUp, show (8 : BitVec 64) - 1 = 7#64 from rfl, toNat_and_not_seven, sum]
  simp only [alignUp, show val + 8 - 1 = val + 7 by omega, mask]

end Rdmas.Model
