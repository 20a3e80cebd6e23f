import Rdmas.Math.Runs
import Rdmas.Math.Tiling
import Rdmas.Model.Slab

/-! # Slab chunks are not shared

The allocator does not know which chunks are handed out. Together with the freed ones they are always the
chunks below the bump index, each once, whatever the order of the calls; everything else follows from that.
-/

namespace Rdmas.Soundness

open Rdmas.Model CheckedMemory Tiling Runs
open scoped List

inductive ChunkOp where
  | allocateChunk
  | freeChunk (chunkIndex : ℕ)
deriving DecidableEq, Repr

/-- The allocator and the chunks its callers hold. -/
structure ChunkState where
  slab : SlabAllocator
  handedOut : List ℕ
deriving DecidableEq, Repr

namespace ChunkState

def fresh (regionSize chunkSize : ℕ) : ChunkState := ⟨.new regionSize chunkSize, []⟩

/-- Callers free what they hold. -/
def step (state : ChunkState) : ChunkOp → Option ChunkState
  | .allocateChunk =>
      let (slab, returned) := state.slab.allocateChunk
      some ⟨slab, state.handedOut ++ returned.toList⟩
  | .freeChunk chunkIndex =>
      if chunkIndex ∈ state.handedOut then
        some ⟨state.slab.freeChunk chunkIndex, state.handedOut.erase chunkIndex⟩
      else none

end ChunkState

/-- What the callers rely on. No offset or count overflows or underflows. -/
structure ChunksExclusive (regionSize chunkSize : ℕ) (state : ChunkState) : Prop where
  rounded : state.slab.chunkSize = (wrappingAlignUp (BitVec.ofNat 64 chunkSize) 8).toNat
  distinct : state.handedOut.Nodup
  inside : ∀ idx ∈ state.handedOut, ∃ offset, state.slab.chunkOffset idx = some offset ∧
    offset + state.slab.chunkSize ≤ state.slab.capacity
  disjoint : ∀ left ∈ state.handedOut, ∀ right ∈ state.handedOut, left ≠ right →
    ∀ leftOffset ∈ state.slab.chunkOffset left, ∀ rightOffset ∈ state.slab.chunkOffset right,
      Apart (leftOffset, state.slab.chunkSize) (rightOffset, state.slab.chunkSize)
  capacity : state.slab.capacity ≤ regionSize
  allocatedCount : state.slab.allocatedCount = some state.handedOut.length
  freeCount : ∃ free, state.slab.freeCount = some free ∧
    state.handedOut.length + free = state.slab.totalChunks
  exhausted : state.slab.allocateChunk.2 = none → state.handedOut.length = state.slab.totalChunks

/-- The chunks below the bump index are handed out or free, each once. -/
structure Tallied (regionSize chunkSize : ℕ) (state : ChunkState) : Prop where
  frame : state.slab = { SlabAllocator.new regionSize chunkSize with
    nextChunk := state.slab.nextChunk
    freeChunks := state.slab.freeChunks }
  tally : (state.handedOut ++ state.slab.freeChunks).Perm (List.range state.slab.nextChunk)
  bounded : state.slab.nextChunk ≤ state.slab.totalChunks

variable {regionSize chunkSize : ℕ} {state next : ChunkState} {op : ChunkOp}

namespace Tallied

theorem fresh (regionSize chunkSize : ℕ) : Tallied regionSize chunkSize (.fresh regionSize chunkSize) where
  frame := rfl
  tally := .refl _
  bounded := Nat.zero_le _

/-- Chunks of different indices share no byte. -/
private theorem apart_chunks (size : ℕ) {left right : ℕ} (differ : left ≠ right) :
    Apart (left * size, size) (right * size, size) := by
  intro address inLeft inRight
  simp only [Contains] at inLeft inRight
  rcases Nat.lt_or_gt_of_ne differ with before | behind
  · have ordered : (left + 1) * size ≤ right * size := Nat.mul_le_mul_right size before
    rw [Nat.succ_mul] at ordered
    omega
  · have ordered : (right + 1) * size ≤ left * size := Nat.mul_le_mul_right size behind
    rw [Nat.succ_mul] at ordered
    omega

variable (tallied : Tallied regionSize chunkSize state)
include tallied

theorem allocateChunk
    (taken : state.step .allocateChunk = some next) : Tallied regionSize chunkSize next := by
  obtain ⟨frame, tally, bounded⟩ := tallied
  simp only [ChunkState.step, SlabAllocator.allocateChunk, Option.some.injEq] at taken
  split at taken
  · next idx last =>
      -- The chunk freed last moves from the end of the stack to those handed out.
      obtain rfl := taken
      refine ⟨frame ▸ rfl, ?_, bounded⟩
      have stack : state.slab.freeChunks = state.slab.freeChunks.dropLast ++ [idx] :=
        (List.dropLast_append_getLast? idx last).symm
      rw [stack] at tally
      rw [Option.toList_some, List.append_assoc]
      exact (List.perm_append_comm.append_left _).trans tally
  · next empty =>
      have none_ : state.slab.freeChunks = [] := List.getLast?_eq_none_iff.mp empty
      rw [none_, List.append_nil] at tally
      split at taken
      · next room =>
          obtain rfl := taken
          refine ⟨frame ▸ rfl, ?_, room⟩
          rw [Option.toList_some, none_, List.append_nil, List.range_succ]
          exact tally.append_right _
      · obtain rfl := taken
        rw [Option.toList_none, List.append_nil]
        exact ⟨frame, by rwa [none_, List.append_nil], bounded⟩

theorem freeChunk {chunkIndex : ℕ}
    (taken : state.step (.freeChunk chunkIndex) = some next) : Tallied regionSize chunkSize next := by
  obtain ⟨frame, tally, bounded⟩ := tallied
  simp only [ChunkState.step, Option.ite_none_right_eq_some, Option.some.injEq] at taken
  obtain ⟨held, rfl⟩ := taken
  refine ⟨frame ▸ rfl, ?_, bounded⟩
  calc state.handedOut.erase chunkIndex ++ (state.slab.freeChunks ++ [chunkIndex])
    _ ~ state.handedOut.erase chunkIndex ++ chunkIndex :: state.slab.freeChunks :=
      List.perm_append_comm.append_left _
    _ ~ chunkIndex :: state.handedOut.erase chunkIndex ++ state.slab.freeChunks := List.perm_middle
    _ ~ state.handedOut ++ state.slab.freeChunks := (List.perm_cons_erase held).symm.append_right _
    _ ~ List.range state.slab.nextChunk := tally

theorem step (taken : state.step op = some next) :
    Tallied regionSize chunkSize next := by
  cases op with
  | allocateChunk => exact tallied.allocateChunk taken
  | freeChunk chunkIndex => exact tallied.freeChunk taken

/-- The size of a chunk and the number of chunks, as the allocator was made. -/
theorem capacity_eq :
    state.slab.capacity = state.slab.totalChunks * state.slab.chunkSize := by
  rw [tallied.frame]
  rfl

theorem capacity_le : state.slab.capacity ≤ regionSize := by
  rw [tallied.frame]
  simp only [SlabAllocator.new]
  split
  · exact Nat.div_mul_le_self _ _
  · rw [Nat.zero_mul]
    exact Nat.zero_le _

theorem lt_totalChunks {idx : ℕ} (held : idx ∈ state.handedOut) : idx < state.slab.totalChunks := by
  have below := tallied.tally.mem_iff.mp (List.mem_append_left _ held)
  exact (List.mem_range.mp below).trans_le tallied.bounded

theorem length_eq :
    state.handedOut.length + state.slab.freeChunks.length = state.slab.nextChunk := by
  rw [← List.length_append, tallied.tally.length_eq, List.length_range]

/-- The chunks that are handed out end inside the capacity, one before the other. -/
theorem end_le {idx : ℕ} (held : idx ∈ state.handedOut) :
    idx * state.slab.chunkSize + state.slab.chunkSize ≤ state.slab.capacity := by
  rw [tallied.capacity_eq, ← Nat.succ_mul]
  exact Nat.mul_le_mul_right _ (tallied.lt_totalChunks held)

theorem chunkOffset_eq (small : regionSize < 2 ^ 64) {idx : ℕ} (held : idx ∈ state.handedOut) :
    state.slab.chunkOffset idx = some (idx * state.slab.chunkSize) := by
  refine product_of_lt ?_
  have fits := tallied.end_le held
  have whole := tallied.capacity_le
  omega

theorem allocatedCount_eq :
    state.slab.allocatedCount = some state.handedOut.length := by
  have sum := tallied.length_eq
  rw [SlabAllocator.allocatedCount, difference_of_le (by omega)]
  exact congrArg some (by omega)

theorem exclusive (small : regionSize < 2 ^ 64)
    (fits : chunkSize + 7 < 2 ^ 64) : ChunksExclusive regionSize chunkSize state := by
  have sum := tallied.length_eq
  have bounded := tallied.bounded
  constructor
  case rounded =>
    rw [toNat_wrappingAlignUp fits, tallied.frame]
    rfl
  case distinct => exact (tallied.tally.nodup_iff.mpr List.nodup_range).of_append_left
  case inside => exact fun idx held => ⟨_, tallied.chunkOffset_eq small held, tallied.end_le held⟩
  case disjoint =>
    intro left leftHeld right rightHeld differ leftOffset leftAt rightOffset rightAt
    rw [tallied.chunkOffset_eq small leftHeld] at leftAt
    rw [tallied.chunkOffset_eq small rightHeld] at rightAt
    cases leftAt
    cases rightAt
    exact apart_chunks _ differ
  case capacity => exact tallied.capacity_le
  case allocatedCount => exact tallied.allocatedCount_eq
  case freeCount =>
    refine ⟨state.slab.totalChunks - state.handedOut.length, ?_, by omega⟩
    rw [SlabAllocator.freeCount, tallied.allocatedCount_eq, Option.bind_eq_bind, Option.bind_some,
      difference_of_le (by omega)]
  case exhausted =>
    intro refused
    simp only [SlabAllocator.allocateChunk] at refused
    split at refused
    · cases refused
    · next empty =>
        rw [List.getLast?_eq_none_iff.mp empty, List.length_nil] at sum
        split at refused
        · cases refused
        · omega

end Tallied

/-- For every size of region and chunk and every sequence of calls that frees only what is handed out, the
chunks handed out are exclusive to their holders, and the counts are right. -/
theorem chunks_are_never_shared (regionSize chunkSize : ℕ) (small : regionSize < 2 ^ 64)
    (fits : chunkSize + 7 < 2 ^ 64) (ops : List ChunkOp) (state : ChunkState)
    (reached : run ChunkState.step (.fresh regionSize chunkSize) ops = some state) :
    ChunksExclusive regionSize chunkSize state :=
  (run_invariant Tallied.step (Tallied.fresh regionSize chunkSize) reached).exclusive small fits

/-- Three chunks of 100 bytes, rounded up to 104, are taken from 350 bytes; the second is freed and taken
again, and there is no fourth. -/
theorem chunks_of_small_region :
    let ops : List ChunkOp := [.allocateChunk, .allocateChunk, .allocateChunk, .freeChunk 1,
      .allocateChunk, .allocateChunk]
    ∃ state, run ChunkState.step (.fresh 350 100) ops = some state ∧ state.handedOut = [0, 2, 1] ∧
      state.slab.capacity = 312 ∧ ChunksExclusive 350 100 state := by
  intro ops
  exact ⟨_, rfl, by decide +kernel, by decide +kernel,
    chunks_are_never_shared 350 100 (by decide) (by decide) ops _ rfl⟩

end Rdmas.Soundness
