import Mathlib.Algebra.BigOperators.Group.Finset.Basic
import Rdmas.Math.ByteMemory
import Rdmas.Model.Layout

/-! # The large-object region

The extent allocator of `engine/extent.rs`. The backing vector is never resized, so its length is the
region's `size` and its bytes are a flat memory. Offsets are natural numbers: they stay below the
length of a vector, where the 64-bit additions of the source do not wrap. The hash set of allocated
offsets is a finite set; where the source iterates it, the order is an argument.
-/

namespace Rdmas.Model

open LittleEndian ByteMemory

/-- All extents are aligned to 8 bytes. -/
def extentAlign : ℕ := 8

/-- Round up to a multiple of `align`: the bits of `align - 1` are cleared from the sum. -/
def alignUp (val align : ℕ) : ℕ :=
  let sum := val + align - 1
  sum - (sum &&& (align - 1))

/-- The footprint of an extent: header and data, rounded up to 8 bytes. -/
def extentTotal (dataLen : ℕ) : ℕ := alignUp (headerSize + dataLen) extentAlign

theorem extentTotal_eq (dataLen : ℕ) : extentTotal dataLen = dataLen + 39 - (dataLen + 39) % 8 := by
  have mask : (dataLen + 39) &&& 7 = (dataLen + 39) % 8 := Nat.and_two_pow_sub_one_eq_mod _ 3
  have sum : 32 + dataLen + 8 - 1 = dataLen + 39 := by omega
  simp only [extentTotal, alignUp, headerSize, extentAlign, sum, mask]

/-- An extent has room for its header and its data. -/
theorem le_extentTotal (dataLen : ℕ) : headerSize + dataLen ≤ extentTotal dataLen := by
  rw [extentTotal_eq, headerSize]
  omega

inductive ExtentError where
  | invalidOffset
  | invalidMagic
  | outOfSpace
  | notAllocated
deriving DecidableEq, Repr

/-- Header information, abstracting over the 24-byte V1 and the 32-byte V2 format. -/
structure DecodedHeader where
  magic : ℕ
  dataLen : ℕ
  epochMark : ℕ
  isV2 : Bool
deriving DecidableEq, Repr

namespace DecodedHeader

def headerSize (decoded : DecodedHeader) : ℕ := if decoded.isV2 then 32 else 24

/-- The footprint `free` and `sweep` return to the free list: V1 extents carry no padding. -/
def totalLen (decoded : DecodedHeader) : ℕ :=
  if decoded.isV2 then extentTotal decoded.dataLen else 24 + decoded.dataLen

end DecodedHeader

structure LargeObjectRegion where
  buffer : Memory
  freeList : List (ℕ × ℕ)
  allocated : Finset ℕ
  nextOffset : ℕ
  size : ℕ

namespace LargeObjectRegion

def new (size : ℕ) : LargeObjectRegion := ⟨fun _ => 0, [], ∅, 0, size⟩

variable (region : LargeObjectRegion)

/-- Write a header with the given checksum and the data behind it. -/
def putExtent (offset : ℕ) (data : Bytes) (checksum : ℕ) : LargeObjectRegion :=
  let header : ExtentHeaderV2 := ⟨extentMagic, 1, data.length, 0, checksum⟩
  let buffer := write region.buffer offset header.toBytes
  { region with buffer := write buffer (offset + headerSize) data }

/-- The checksum field of a plain extent stays zero. -/
def writeExtent (offset : ℕ) (data : Bytes) : LargeObjectRegion := region.putExtent offset data 0

/-- Allocate an extent holding `data`: first fit in the free list, with the unused tail put back,
else from the bump pointer. -/
def allocate (data : Bytes) : LargeObjectRegion × Option ℕ :=
  let totalNeeded := extentTotal data.length
  match region.freeList.findIdx? fun entry => entry.2 ≥ totalNeeded with
  | some idx =>
      let (offset, len) := region.freeList.getD idx (0, 0)
      let removed := region.freeList.eraseIdx idx
      let freeList :=
        if len > totalNeeded then removed ++ [(offset + totalNeeded, len - totalNeeded)]
        else removed
      let written := { region with freeList }.writeExtent offset data
      ({ written with allocated := insert offset written.allocated }, some offset)
  | none =>
      if region.nextOffset + totalNeeded > region.size then (region, none)
      else
        let offset := region.nextOffset
        let written := { region with nextOffset := offset + totalNeeded }.writeExtent offset data
        ({ written with allocated := insert offset written.allocated }, some offset)

/-- Interpret the header at an offset: V1 by its magic at byte 16, then V2 by its magic at byte 0
and the version byte behind it. -/
def readDecodedHeader (off : ℕ) : Option DecodedHeader :=
  let buffer := region.buffer
  if off + 24 ≤ region.size ∧ word buffer 4 (off + 16) = extentMagic then
    some ⟨word buffer 4 (off + 16), word buffer 8 off, word buffer 8 (off + 8), false⟩
  else if off + 5 ≤ region.size then
    let magic := word buffer 4 off
    if magic ≠ extentMagic then some ⟨magic, 0, 0, false⟩
    else match (buffer (off + 4)).toNat with
      | 0 =>
          if off + 24 > region.size then none
          else some ⟨magic, word buffer 8 off, word buffer 8 (off + 8), false⟩
      | 1 =>
          if off + 32 > region.size then none
          else some ⟨magic, word buffer 4 (off + 8), word buffer 8 (off + 16), true⟩
      | _ => none
  else none

/-- The data stored in an extent. -/
def read (offset : ℕ) : Option Bytes := do
  let decoded ← region.readDecodedHeader offset
  if decoded.magic ≠ extentMagic then none
  else
    let dataStart := offset + decoded.headerSize
    if dataStart + decoded.dataLen > region.size then none
    else some (ByteMemory.read region.buffer dataStart decoded.dataLen)

/-- Zero the magic at byte 0 of a header. -/
def zeroMagic (offset : ℕ) : LargeObjectRegion :=
  if offset + 4 ≤ region.size then
    { region with buffer := write region.buffer offset [0, 0, 0, 0] }
  else region

/-- The common end of `free` and `sweep`: invalidate the header and return the range. -/
def release (offset : ℕ) (decoded : DecodedHeader) : LargeObjectRegion :=
  let zeroed := region.zeroMagic offset
  { zeroed with
    freeList := zeroed.freeList ++ [(offset, decoded.totalLen)]
    allocated := zeroed.allocated.erase offset }

def free (offset : ℕ) : LargeObjectRegion × Except ExtentError Unit :=
  if offset ∉ region.allocated then (region, .error .notAllocated)
  else match region.readDecodedHeader offset with
    | none => (region, .error .invalidOffset)
    | some decoded =>
        if decoded.magic ≠ extentMagic then (region, .error .invalidMagic)
        else (region.release offset decoded, .ok ())

/-- Store an epoch in the header, at the V2 position whatever the format. -/
def markForGc (offset : ℕ) (epoch : BitVec 64) : LargeObjectRegion × Except ExtentError Unit :=
  match region.readDecodedHeader offset with
  | none => (region, .error .invalidOffset)
  | some decoded =>
      if decoded.magic ≠ extentMagic then (region, .error .invalidMagic)
      else if offset + 16 + 8 ≤ region.size then
        ({ region with buffer := write region.buffer (offset + 16) (encode 8 epoch.toNat) }, .ok ())
      else (region, .ok ())

/-- The sweep's test of one extent: its header decodes with a mark strictly between zero and the
oldest active epoch. -/
def sweepable (minActiveEpoch : BitVec 64) (offset : ℕ) : Option DecodedHeader :=
  (region.readDecodedHeader offset).filter fun decoded =>
    decoded.epochMark > 0 && decoded.epochMark < minActiveEpoch.toNat

/-- Sweep the given offsets, a snapshot of the allocated set in its iteration order; the number of
extents freed is returned. -/
def sweep (region : LargeObjectRegion) (minActiveEpoch : BitVec 64) :
    List ℕ → LargeObjectRegion × ℕ
  | [] => (region, 0)
  | offset :: offsets =>
      match region.sweepable minActiveEpoch offset with
      | some decoded =>
          let (swept, count) := (region.release offset decoded).sweep minActiveEpoch offsets
          (swept, count + 1)
      | none => region.sweep minActiveEpoch offsets

/-- Bytes occupied by allocated extents, as the source counts them: with the V2 footprint. -/
def usedBytes : ℕ :=
  region.allocated.sum fun off =>
    ((region.readDecodedHeader off).map fun decoded => extentTotal decoded.dataLen).getD 0

/-- Append a V1 extent: a 24-byte header, no padding, from the bump pointer only. -/
def writeExtentV1 (data : Bytes) : LargeObjectRegion × Option ℕ :=
  let total := 24 + data.length
  if region.nextOffset + total > region.size then (region, none)
  else
    let offset := region.nextOffset
    let buffer := write region.buffer offset (encode 8 data.length)
    let buffer := write buffer (offset + 8) (encode 8 0)
    let buffer := write buffer (offset + 16) (encode 4 extentMagic)
    let buffer := write buffer (offset + 20) [0, 0, 0, 0]
    let buffer := write buffer (offset + 24) data
    ({ region with
      buffer
      nextOffset := offset + total
      allocated := insert offset region.allocated }, some offset)

/-- Append a V2 extent with its checksum, from the bump pointer only; `xxh64` is the hash of the
`xxhash_rust` crate. -/
def writeExtentV2Checksummed (xxh64 : Xxh64) (region : LargeObjectRegion)
    (data : Bytes) : LargeObjectRegion × Option ℕ :=
  let totalNeeded := extentTotal data.length
  if region.nextOffset + totalNeeded > region.size then (region, none)
  else
    let offset := region.nextOffset
    let written := { region with nextOffset := offset + totalNeeded }.putExtent offset data
      (xxh64 data 0).toNat
    ({ written with allocated := insert offset written.allocated }, some offset)

def readChecksum (region : LargeObjectRegion) (offset : ℕ) : Option ℕ := do
  let decoded ← region.readDecodedHeader offset
  if !decoded.isV2 then none
  else if offset + 32 > region.size then none
  else some (word region.buffer 8 (offset + 24))

def capacity (region : LargeObjectRegion) : ℕ := region.size

end LargeObjectRegion

end Rdmas.Model
