import Rdmas.Soundness.EpochWrap
import Rdmas.Soundness.MarkedExtent

/-! # Payloads beyond the length field

The length field of a V2 header has 32 bits; the space set aside for an extent is computed in 64. A payload
of 2^32 bytes or more is written in full, but its header tells only the remainder of its length. What is
read is a prefix, and what is freed is the footprint of that prefix.
-/

namespace Rdmas.Soundness

open Rdmas.Model LittleEndian ByteMemory Tiling Runs ExtentRecord

/-- What is to hold of an extent that was accepted: it reads as its payload and, freed after any run that
retains it, returns its footprint. -/
structure StoresWhole (xxh64 : Xxh64) (region : LargeObjectRegion) (offset : ℕ)
    (payload : Bytes) : Prop where
  read : region.read offset = some payload
  freed : ∀ ops later, run (regionStep xxh64) region ops = some later →
    Throughout (regionStep xxh64) (Retains xxh64 offset) region ops →
    (later.free offset).2 = .ok () ∧
      (later.free offset).1.freeList = later.freeList ++ [(offset, extentTotal payload.length)]

/-- A payload is stored whole if it is accepted. -/
def RefusesOrStores (xxh64 : Xxh64) (region : LargeObjectRegion)
    (writer : ExtentWriter) (payload : Bytes) : Prop :=
  ∀ after offset, writer.call xxh64 region payload = (after, some offset) →
    StoresWhole xxh64 after offset payload

section Writers

variable {xxh64 : Xxh64} {region after : LargeObjectRegion}
variable {writer : ExtentWriter} {payload : Bytes} {offset : ℕ}

private theorem call_puts (modern : writer.format = .v2)
    (accepted : writer.call xxh64 region payload = (after, some offset)) :
    ∃ checksum, Puts region after offset payload checksum := by
  cases writer with
  | allocate => exact ⟨_, allocate_puts accepted⟩
  | writeExtentV1 => cases modern
  | writeExtentV2Checksummed => exact ⟨_, writeExtentV2Checksummed_puts accepted⟩

/-- A freshly written V2 header, wherever it lies, says at most a length of 32 bits. -/
theorem dataLen_of_putExtent {checksum : ℕ} {decoded : DecodedHeader}
    (buffer : after.buffer = (region.putExtent offset payload checksum).buffer)
    (decodes : after.readDecodedHeader offset = some decoded) (magic : decoded.magic = extentMagic) :
    decoded.dataLen < 2 ^ 32 := by
  obtain ⟨_, version, _, epoch, _⟩ := stored_putExtent_cut region offset payload checksum
  rw [← buffer] at version epoch
  rcases header_of_decodes decodes magic with ⟨legacy, rfl⟩ | ⟨modern, rfl⟩
  · have clear : word after.buffer 4 (offset + 16) ≠ extentMagic := by
      rw [word_eq_mod (show 4 ≤ 8 by decide), epoch]
      exact show (0 : BitVec 64).toNat % 256 ^ 4 ≠ extentMagic by decide
    rcases legacy.magic with mistaken | ⟨_, zero⟩
    · exact absurd mistaken clear
    · exact absurd (zero.symm.trans version) (by decide)
  · exact word_lt _ 4 _

/-- What a V2 writer stores in a packed region is as much of the payload as the length field can tell. -/
theorem Packed.stores_cut (packed : Packed region) (modern : writer.format = .v2)
    (accepted : writer.call xxh64 region payload = (after, some offset)) :
    after.read offset = some (payload.take (payload.length % 2 ^ 32)) ∧
      HoldsExtent after offset (payload.length % 2 ^ 32) := by
  obtain ⟨checksum, puts⟩ := call_puts modern accepted
  have inside := packed.inside_of_puts puts
  refine ⟨read_putExtent puts.buffer inside, (packed.puts puts).1, ?_, 0,
    Packed.decodes_of_putExtent puts.buffer inside⟩
  rw [puts.allocated]
  exact Finset.mem_insert_self offset region.allocated

/-- In a packed region payloads that the length field can hold are stored whole. -/
theorem Packed.refusesOrStores (packed : Packed region) (modern : writer.format = .v2)
    (short : payload.length < 2 ^ 32) : RefusesOrStores xxh64 region writer payload := by
  intro after offset accepted
  obtain ⟨read, holds⟩ := packed.stores_cut modern accepted
  rw [Nat.mod_eq_of_lt short] at read holds
  rw [List.take_length] at read
  exact ⟨read, fun ops later reached retained =>
    (retained.invariant HoldsExtent.step holds reached).free⟩

end Writers

/-- The region has the footprint of a payload for the writer: `allocate` takes it out of the free list or
behind the last extent, the other writers only behind the last extent. -/
def ExtentWriter.HasRoom (region : LargeObjectRegion) (length : ℕ) : ExtentWriter → Prop
  | .allocate => (∃ entry ∈ region.freeList, extentTotal length ≤ entry.2) ∨
      region.nextOffset + extentTotal length ≤ region.size
  | .writeExtentV1 => region.nextOffset + (24 + length) ≤ region.size
  | .writeExtentV2Checksummed => region.nextOffset + extentTotal length ≤ region.size

/-- The writers refuse for want of room and for nothing else. -/
theorem call_eq_none_iff (xxh64 : Xxh64) (region : LargeObjectRegion)
    (writer : ExtentWriter) (payload : Bytes) :
    (writer.call xxh64 region payload).2 = none ↔ ¬ writer.HasRoom region payload.length := by
  cases writer with
  | allocate =>
      simp only [ExtentWriter.call, ExtentWriter.HasRoom, LargeObjectRegion.allocate, not_or, not_le]
      split
      · next idx chosen =>
        obtain ⟨bound, large, _⟩ := List.findIdx?_eq_some_iff_getElem.mp chosen
        have fits : ∃ entry ∈ region.freeList, extentTotal payload.length ≤ entry.2 :=
          ⟨_, List.getElem_mem bound, of_decide_eq_true large⟩
        refine ⟨fun refused => ?_, fun full => absurd fits full.1⟩
        cases refused
      · next none =>
        have absent : ¬ ∃ entry ∈ region.freeList, extentTotal payload.length ≤ entry.2 := by
          rintro ⟨entry, member, large⟩
          have small := List.findIdx?_eq_none_iff.mp none entry member
          exact absurd large (of_decide_eq_false small)
        simp only [absent, not_false_eq_true, true_and]
        split <;> simp_all
  | writeExtentV1 =>
      simp only [ExtentWriter.call, ExtentWriter.HasRoom, LargeObjectRegion.writeExtentV1, not_le]
      split <;> simp_all
  | writeExtentV2Checksummed =>
      simp only [ExtentWriter.call, ExtentWriter.HasRoom, LargeObjectRegion.writeExtentV2Checksummed, not_le]
      split <;> simp_all

/-- For every payload of 2^32 bytes or more, the V2 writers keep to refusing it or storing it whole exactly
in a region that has no room for it. -/
theorem oversize_payload_refused_or_lost (xxh64 : Xxh64)
    (region : LargeObjectRegion) (writer : ExtentWriter) (modern : writer.format = .v2) (payload : Bytes)
    (oversize : 2 ^ 32 ≤ payload.length) :
    RefusesOrStores xxh64 region writer payload ↔ ¬ writer.HasRoom region payload.length := by
  rw [← call_eq_none_iff xxh64]
  constructor
  · intro stores
    cases called : writer.call xxh64 region payload with
    | mk after outcome =>
      cases outcome with
      | none => rfl
      | some offset =>
        obtain ⟨checksum, puts⟩ := call_puts modern called
        obtain ⟨decoded, decodes, magic, length⟩ := header_of_read (stores after offset called).read
        have short := dataLen_of_putExtent puts.buffer decodes magic
        omega
  · intro refused after offset accepted
    rw [accepted] at refused
    cases refused

private theorem exists_oversize : ∃ payload : Bytes, payload.length = 2 ^ 32 :=
  ⟨List.replicate (2 ^ 32) 0, List.length_replicate⟩

/-- A region of 2^32 + 32 bytes has room for a payload of 2^32 bytes, and both writers lose it. -/
theorem oversize_payload_lost_with_room :
    ∃ payload : Bytes, payload.length = 2 ^ 32 ∧ ∀ writer : ExtentWriter, writer.format = .v2 →
      ¬ RefusesOrStores (fun _ _ => 0) (.new (2 ^ 32 + 32)) writer payload := by
  obtain ⟨payload, length⟩ := exists_oversize
  refine ⟨payload, length, fun writer modern => ?_⟩
  rw [oversize_payload_refused_or_lost (fun _ _ => 0) _ writer modern payload length.ge, not_not]
  have room : (LargeObjectRegion.new (2 ^ 32 + 32)).nextOffset + extentTotal payload.length ≤
      (LargeObjectRegion.new (2 ^ 32 + 32)).size := by
    rw [length]
    decide
  cases writer with
  | allocate => exact .inr room
  | writeExtentV1 => cases modern
  | writeExtentV2Checksummed => exact room

/-- A fresh region accepts what it has room for. -/
theorem call_new (xxh64 : Xxh64) {writer : ExtentWriter}
    (modern : writer.format = .v2) {size : ℕ} {payload : Bytes} (room : extentTotal payload.length ≤ size) :
    ∃ after, writer.call xxh64 (.new size) payload = (after, some 0) ∧ after.freeList = [] ∧
      after.nextOffset = extentTotal payload.length := by
  have upper : (LargeObjectRegion.new size).nextOffset + extentTotal payload.length =
      extentTotal payload.length := Nat.zero_add _
  have bound : (LargeObjectRegion.new size).size = size := rfl
  have empty : (LargeObjectRegion.new size).freeList = [] := rfl
  cases writer with
  | allocate =>
      simp only [ExtentWriter.call, LargeObjectRegion.allocate, empty, List.findIdx?_nil, upper, bound]
      rw [if_neg (Nat.not_lt.mpr room)]
      exact ⟨_, rfl, rfl, rfl⟩
  | writeExtentV1 => cases modern
  | writeExtentV2Checksummed =>
      simp only [ExtentWriter.call, LargeObjectRegion.writeExtentV2Checksummed, upper, bound]
      rw [if_neg (Nat.not_lt.mpr room)]
      exact ⟨_, rfl, rfl, rfl⟩

/-- A payload of 2^32 bytes in a region that has just the room for it: it reads as nothing, and 32 bytes of
its footprint are returned when it is freed. -/
theorem oversize_payload_truncated :
    ∃ payload : Bytes, payload.length = 2 ^ 32 ∧ ∀ writer : ExtentWriter, writer.format = .v2 →
      ∃ after, writer.call (fun _ _ => 0) (.new (2 ^ 32 + 32)) payload = (after, some 0) ∧
        after.nextOffset = 2 ^ 32 + 32 ∧ after.read 0 = some [] ∧
        (after.free 0).2 = .ok () ∧ (after.free 0).1.freeList = [(0, 32)] := by
  obtain ⟨payload, length⟩ := exists_oversize
  refine ⟨payload, length, fun writer modern => ?_⟩
  have footprint : extentTotal payload.length = 2 ^ 32 + 32 := by
    rw [length]
    decide
  obtain ⟨after, accepted, empty, upper⟩ :=
    call_new (fun _ _ => 0) modern footprint.le
  obtain ⟨read, holds⟩ := (packed_new (by decide)).stores_cut modern accepted
  rw [length] at read holds
  obtain ⟨freed, freeList⟩ := holds.free
  refine ⟨after, accepted, upper.trans footprint, read, freed, ?_⟩
  rw [freeList, empty]
  decide

end Rdmas.Soundness
