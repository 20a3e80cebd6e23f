import Mathlib.Logic.Function.Basic
import Rdmas.Math.Tiling
import Rdmas.Model.Extent

/-! # Remote bump allocation

`DistributedExtentAllocator::allocate_remote` as a machine. Every transport operation is one step on the
free-list region. Addresses are relative to `free_list_vaddr`, so the bump word is the eight bytes at
0. The extent branch of a remote insert makes the same steps.
-/

namespace Rdmas.Model

open LittleEndian ByteMemory Tiling

/-- Where a call stands. The checksum write ends it with `Ok(offset)`, a lost swap with `CasFailed`. -/
inductive AllocPc where
  | start
  | haveOld (oldOffset : ℕ)
  | reserved (offset : ℕ)
  | headerWritten (offset : ℕ)
  | payloadWritten (offset : ℕ)
  | finished (offset : ℕ)
  | casFailed
deriving DecidableEq, Repr

/-- The shared bump offset. -/
def bumpOffset (region : Memory) : ℕ := word region 8 0

namespace AllocPc

/-- The offset a call has reserved, if its swap succeeded. -/
def granted : AllocPc → Option ℕ
  | .reserved offset | .headerWritten offset | .payloadWritten offset | .finished offset =>
      some offset
  | _ => none

section Step

variable (xxh64 : Xxh64) (data : Bytes)

/-- The write a call makes next, and where it stands afterwards: the header with a zero checksum, the
payload, the checksum. -/
def pendingWrite : AllocPc → Option (ℕ × Bytes × AllocPc)
  | .reserved offset =>
      let header : ExtentHeaderV2 := ⟨extentMagic, 1, data.length, 0, 0⟩
      some (offset, header.toBytes, .headerWritten offset)
  | .headerWritten offset => some (offset + headerSize, data, .payloadWritten offset)
  | .payloadWritten offset =>
      some (offset + 24, encode 8 (xxh64 data 0).toNat, .finished offset)
  | _ => none

/-- One transport operation of a call. -/
def step (region : Memory) : AllocPc → Option (Memory × AllocPc)
  | .start => some (region, .haveOld (bumpOffset region))
  | .haveOld oldOffset =>
      let newOffset := oldOffset + extentTotal data.length
      if bumpOffset region = oldOffset then
        some (write region 0 (encode 8 newOffset), .reserved oldOffset)
      else some (region, .casFailed)
  | pc => (pc.pendingWrite xxh64 data).map fun (address, bytes, next) =>
      (write region address bytes, next)

end Step

end AllocPc

/-- The free-list region and the calls on it. -/
structure AllocState (ι : Type) where
  region : Memory
  calls : ι → AllocPc

namespace AllocState

variable {ι : Type} [DecidableEq ι]

/-- No call has started. -/
def initial (region : Memory) : AllocState ι := ⟨region, fun _ => .start⟩

/-- The next operation of one call. -/
def step (xxh64 : Xxh64) (data : ι → Bytes) (state : AllocState ι) (call : ι) : Option (AllocState ι) :=
  ((state.calls call).step xxh64 (data call) state.region).map fun (region, pc) =>
    ⟨region, Function.update state.calls call pc⟩

/-- The range a call has reserved for its extent. -/
def grant (data : ι → Bytes) (state : AllocState ι) (call : ι) : Option Range :=
  (state.calls call).granted.map fun offset => (offset, extentTotal (data call).length)

end AllocState

end Rdmas.Model
