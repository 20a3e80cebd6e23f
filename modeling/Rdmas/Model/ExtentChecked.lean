import Rdmas.Math.CheckedMemory
import Rdmas.Model.Extent

/-! # Region accessors with checked arithmetic

`read_decoded_header`, `read`, `read_checksum`, `mark_for_gc` and `free` of `engine/extent.rs` once
more, for offsets that need not lie in the buffer. Every addition of the source is one of 64-bit words
and every slice is checked against the buffer; the outer `none` is a call that panics.
-/

namespace Rdmas.Model

open LittleEndian ByteMemory CheckedMemory

/-- `extent_total`: `HEADER_SIZE + data_len`, then `val + align - 1` in `align_up`. -/
def checkedExtentTotal (dataLen : ℕ) : Option ℕ := do
  let val ← sum 64 headerSize dataLen
  let sum ← sum 64 val extentAlign
  return sum - 1 - ((sum - 1) &&& (extentAlign - 1))

/-- The footprint `free` returns to the free list. -/
def DecodedHeader.checkedTotalLen (decoded : DecodedHeader) : Option ℕ :=
  if decoded.isV2 then checkedExtentTotal decoded.dataLen else sum 64 24 decoded.dataLen

namespace LargeObjectRegion

variable (region : LargeObjectRegion)

/-- `u32` and `u64` fields of the bytes behind an offset. -/
def checkedField (off skip width : ℕ) : Option ℕ := field 64 region.buffer region.size off skip width

/-- The V2 layout, tried second. -/
def checkedReadV2 (off : ℕ) : Option (Option DecodedHeader) := do
  let versionEnd ← sum 64 off 5
  if versionEnd ≤ region.size then
    let magic ← region.checkedField off 0 4
    if magic ≠ extentMagic then
      return some ⟨magic, 0, 0, false⟩
    else
      let versionAt ← sum 64 off 4
      let version ← get region.buffer region.size versionAt
      match version.toNat with
      | 0 =>
          let headerEnd ← sum 64 off 24
          if headerEnd > region.size then
            return none
          else
            let dataLen ← region.checkedField off 0 8
            let epochMark ← region.checkedField off 8 8
            return some ⟨magic, dataLen, epochMark, false⟩
      | 1 =>
          let headerEnd ← sum 64 off 32
          if headerEnd > region.size then
            return none
          else
            let dataLen ← region.checkedField off 8 4
            let epochMark ← region.checkedField off 16 8
            return some ⟨magic, dataLen, epochMark, true⟩
      | _ => return none
  else
    return none

/-- The test for the V1 layout, whose magic is at byte 16. -/
def checkedIsV1 (off : ℕ) : Option Bool := do
  let headerEnd ← sum 64 off 24
  if headerEnd ≤ region.size then
    let magicV1 ← region.checkedField off 16 4
    return magicV1 == extentMagic
  else
    return false

/-- Interpret the header at an offset. -/
def checkedReadDecodedHeader (off : ℕ) : Option (Option DecodedHeader) := do
  if ← region.checkedIsV1 off then
    let dataLen ← region.checkedField off 0 8
    let epochMark ← region.checkedField off 8 8
    return some ⟨extentMagic, dataLen, epochMark, false⟩
  else
    region.checkedReadV2 off

def checkedRead (offset : ℕ) : Option (Option Bytes) := do
  match ← region.checkedReadDecodedHeader offset with
  | none => return none
  | some decoded =>
    if decoded.magic ≠ extentMagic then
      return none
    else
      let dataStart ← sum 64 offset decoded.headerSize
      let dataEnd ← sum 64 dataStart decoded.dataLen
      if dataEnd > region.size then
        return none
      else
        let data ← slice region.buffer region.size dataStart dataEnd
        return some data

def checkedReadChecksum (offset : ℕ) : Option (Option ℕ) := do
  match ← region.checkedReadDecodedHeader offset with
  | none => return none
  | some decoded =>
    if !decoded.isV2 then
      return none
    else
      let headerEnd ← sum 64 offset 32
      if headerEnd > region.size then
        return none
      else
        let checksum ← region.checkedField offset 24 8
        return some checksum

/-- The slice the epoch is copied into is `buffer[epoch_off..epoch_off + 8]`. -/
def checkedMarkForGc (offset : ℕ) (epoch : BitVec 64) :
    Option (LargeObjectRegion × Except ExtentError Unit) := do
  match ← region.checkedReadDecodedHeader offset with
  | none => return (region, .error .invalidOffset)
  | some decoded =>
    if decoded.magic ≠ extentMagic then
      return (region, .error .invalidMagic)
    else
      let epochOff ← sum 64 offset 16
      let epochEnd ← sum 64 epochOff 8
      if epochEnd ≤ region.size then
        let _ ← slice region.buffer region.size epochOff epochEnd
        return ({ region with buffer := write region.buffer epochOff (encode 8 epoch.toNat) }, .ok ())
      else
        return (region, .ok ())

/-- The slice zeroed is `buffer[magic_off..magic_off + 4]`. -/
def checkedZeroMagic (offset : ℕ) : Option LargeObjectRegion := do
  let magicEnd ← sum 64 offset 4
  if magicEnd ≤ region.size then
    let _ ← slice region.buffer region.size offset magicEnd
    return { region with buffer := write region.buffer offset [0, 0, 0, 0] }
  else
    return region

def checkedFree (offset : ℕ) : Option (LargeObjectRegion × Except ExtentError Unit) :=
  if offset ∉ region.allocated then
    return (region, .error .notAllocated)
  else do
    match ← region.checkedReadDecodedHeader offset with
    | none => return (region, .error .invalidOffset)
    | some decoded =>
      if decoded.magic ≠ extentMagic then
        return (region, .error .invalidMagic)
      else
        let totalLen ← decoded.checkedTotalLen
        let zeroed ← region.checkedZeroMagic offset
        return ({ zeroed with
          freeList := zeroed.freeList ++ [(offset, totalLen)]
          allocated := zeroed.allocated.erase offset }, .ok ())

end LargeObjectRegion

end Rdmas.Model
