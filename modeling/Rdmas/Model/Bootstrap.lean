import Rdmas.Model.Cuckoo
import Rdmas.Model.Extent

/-! # Bootstrapping the server engine

The regions `BootstrappedEngine` creates at startup, from `engine/bootstrap.rs`.
-/

namespace Rdmas.Model

/-- Fixed-size chunk allocator. -/
structure SlabAllocator where
  chunkSize : ℕ
  totalChunks : ℕ
  nextChunk : ℕ
  freeChunks : List ℕ
  capacity : ℕ
deriving DecidableEq, Repr

def SlabAllocator.new (regionSize chunkSize : ℕ) : SlabAllocator :=
  let alignedChunk := alignUp chunkSize 8
  let totalChunks := if alignedChunk > 0 then regionSize / alignedChunk else 0
  ⟨alignedChunk, totalChunks, 0, [], totalChunks * alignedChunk⟩

structure BootstrappedEngine where
  table : CuckooTable
  largeObjects : LargeObjectRegion
  freeList : FreeListHeader
  slab : SlabAllocator

namespace BootstrappedEngine

def bootstrapWithSlab (bucketCount largeObjectRegionSize maxKick slabChunkSize slabRegionSize : ℕ)
    (powerOfTwo : bucketCount.isPowerOfTwo) : BootstrappedEngine :=
  let table := CuckooTable.new bucketCount maxKick powerOfTwo
  let largeObjects := LargeObjectRegion.new largeObjectRegionSize
  let freeList : FreeListHeader := ⟨0⟩
  let slab := SlabAllocator.new slabRegionSize slabChunkSize
  ⟨table, largeObjects, freeList, slab⟩

def bootstrap (bucketCount largeObjectRegionSize maxKick : ℕ)
    (powerOfTwo : bucketCount.isPowerOfTwo) : BootstrappedEngine :=
  bootstrapWithSlab bucketCount largeObjectRegionSize maxKick 0 0 powerOfTwo

def bucketCount (engine : BootstrappedEngine) : ℕ := engine.table.bucketCount

def largeObjectCapacity (engine : BootstrappedEngine) : ℕ := engine.largeObjects.capacity

end BootstrappedEngine

end Rdmas.Model
