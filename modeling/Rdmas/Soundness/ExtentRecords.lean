import Rdmas.Math.Tiling
import Rdmas.Soundness.ExtentHeaders

/-! # What an extent leaves in memory

A record says what was last allocated at an offset: its format, payload and mark, and whether it is
still allocated. `Stored` says which bytes a record leaves behind. It depends on the bytes of its own
footprint only, determines how the header decodes, and is established by each of the writes.
-/

namespace Rdmas.Soundness

open Rdmas.Model LittleEndian ByteMemory Tiling

inductive ExtentFormat where
  | v1
  | v2
deriving DecidableEq, Repr

/-- The latest allocation at an offset. -/
structure ExtentRecord where
  format : ExtentFormat
  payload : Bytes
  mark : BitVec 64
  live : Bool
deriving DecidableEq, Repr

namespace ExtentRecord

/-- The length of the byte range the extent occupies. -/
def size (record : ExtentRecord) : ℕ :=
  match record.format with
  | .v1 => 24 + record.payload.length
  | .v2 => extentTotal record.payload.length

/-- The bytes that matter: the header of a released extent, all of any other. -/
def footprint (record : ExtentRecord) : ℕ :=
  match record.format, record.live with
  | .v2, false => headerSize
  | _, _ => record.size

/-- How the header reads. A released header has lost its magic. -/
def decoded (record : ExtentRecord) : DecodedHeader :=
  match record.format, record.live with
  | .v1, _ => ⟨extentMagic, record.payload.length, 0, false⟩
  | .v2, true => ⟨extentMagic, record.payload.length, record.mark.toNat, true⟩
  | .v2, false => ⟨0, 0, 0, false⟩

/-- Lengths fit the field of a V2 header, marks are not mistaken for a V1 magic, and V1 extents are
neither marked nor released. -/
structure Sound (record : ExtentRecord) : Prop where
  short : record.format = .v2 → record.payload.length < 2 ^ 32
  unmistakable : record.mark.toNat % 2 ^ 32 ≠ extentMagic
  legacy : record.format = .v1 → record.mark = 0 ∧ record.live = true

/-- The bytes a record leaves at its offset. -/
def Stored (record : ExtentRecord) (memory : Memory) (offset : ℕ) : Prop :=
  match record.format, record.live with
  | .v1, _ =>
      word memory 8 offset = record.payload.length ∧ word memory 8 (offset + 8) = 0 ∧
      word memory 4 (offset + 16) = extentMagic ∧
      ByteMemory.read memory (offset + 24) record.payload.length = record.payload
  | .v2, true =>
      word memory 4 offset = extentMagic ∧ memory (offset + 4) = 1 ∧
      word memory 4 (offset + 8) = record.payload.length ∧
      word memory 8 (offset + 16) = record.mark.toNat ∧
      ByteMemory.read memory (offset + 32) record.payload.length = record.payload
  | .v2, false => word memory 4 offset = 0 ∧ word memory 8 (offset + 16) = record.mark.toNat

variable {record : ExtentRecord} {memory next : Memory} {offset : ℕ}

theorem le_size (record : ExtentRecord) : 24 + record.payload.length ≤ record.size := by
  unfold size
  split
  · exact le_rfl
  · have := le_extentTotal record.payload.length
    rw [headerSize] at this
    omega

theorem header_le_footprint (record : ExtentRecord) : 24 ≤ record.footprint := by
  have := record.le_size
  unfold footprint headerSize
  split <;> omega

theorem footprint_of_live (live : record.live = true) : record.footprint = record.size := by
  unfold footprint
  rw [live]
  cases record.format <;> rfl

/-- A record is about the bytes of its footprint only. -/
theorem Stored.congr (stored : record.Stored memory offset)
    (same : ∀ query, Contains (offset, record.footprint) query → next query = memory query) :
    record.Stored next offset := by
  have blocks : ∀ skip length, skip + length ≤ record.footprint →
      ByteMemory.read next (offset + skip) length = ByteMemory.read memory (offset + skip) length :=
    fun skip length bound => read_congr fun query lower upper =>
      same query ⟨by simp only; omega, by simp only; omega⟩
  have words : ∀ width skip, skip + width ≤ record.footprint →
      word next width (offset + skip) = word memory width (offset + skip) :=
    fun width skip bound => congrArg decode (blocks skip width bound)
  have first : ∀ width ≤ 24, word next width offset = word memory width offset :=
    fun width short => words width 0 (by have := record.header_le_footprint; omega)
  have header := record.header_le_footprint
  obtain ⟨format, payload, mark, live⟩ := record
  match format, live with
  | .v1, _ =>
    have room := le_size ⟨.v1, payload, mark, live⟩
    obtain ⟨length, epoch, magic, data⟩ := stored
    exact ⟨by rw [first 8 (by omega), length], by rw [words 8 8 (by omega), epoch],
      by rw [words 4 16 (by omega), magic], by rw [blocks 24 _ room, data]⟩
  | .v2, true =>
    have room : headerSize + payload.length ≤ extentTotal payload.length := le_extentTotal _
    obtain ⟨magic, version, length, epoch, data⟩ := stored
    refine ⟨by rw [first 4 (by omega), magic], ?_, by rw [words 4 8 (by omega), length],
      by rw [words 8 16 (by omega), epoch], by rw [blocks 32 _ room, data]⟩
    rw [same (offset + 4) ⟨by simp only; omega, by simp only; omega⟩, version]
  | .v2, false =>
    obtain ⟨magic, epoch⟩ := stored
    exact ⟨by rw [first 4 (by omega), magic], by rw [words 8 16 (by omega), epoch]⟩

section Reading

variable {region : LargeObjectRegion}

/-- The epoch of a V2 header is never taken for the magic of a V1 header. -/
theorem word_mark_ne_magic (sound : record.Sound) (epoch : word memory 8 (offset + 16) = record.mark.toNat) :
    word memory 4 (offset + 16) ≠ extentMagic := by
  rw [word_eq_mod (show 4 ≤ 8 by decide), epoch]
  exact sound.unmistakable

/-- The header of a record decodes as the record says. -/
theorem readDecodedHeader_of_stored (stored : record.Stored region.buffer offset)
    (sound : record.Sound) (inside : offset + record.footprint ≤ region.size) :
    region.readDecodedHeader offset = some record.decoded := by
  have header := record.header_le_footprint
  obtain ⟨format, payload, mark, live⟩ := record
  match format, live with
  | .v1, _ =>
    obtain ⟨length, epoch, magic, _⟩ := stored
    have legacy : LegacyHeader region offset := ⟨by omega, .inl magic⟩
    rw [legacy.decodes, length, epoch]
    rfl
  | .v2, true =>
    obtain ⟨magic, version, length, epoch, _⟩ := stored
    have room := le_extentTotal payload.length
    simp only [footprint, size, headerSize] at inside room
    have modern : ModernHeader region offset :=
      ⟨by omega, word_mark_ne_magic sound epoch, magic, version⟩
    rw [modern.decodes, length, epoch]
    rfl
  | .v2, false =>
    obtain ⟨magic, epoch⟩ := stored
    have lost : word region.buffer 4 offset ≠ extentMagic := by
      rw [magic]
      decide
    rw [readDecodedHeader_of_ne (by omega) (word_mark_ne_magic sound epoch) lost, magic]
    rfl

/-- A live header and the data behind it. -/
theorem decoded_of_live (live : record.live = true) :
    record.decoded.magic = extentMagic ∧ record.decoded.dataLen = record.payload.length ∧
      record.decoded.totalLen = record.size ∧
      record.decoded.headerSize + record.payload.length ≤ record.size := by
  have room := le_extentTotal record.payload.length
  obtain ⟨format, payload, mark, state⟩ := record
  subst live
  cases format with
  | v1 => exact ⟨rfl, rfl, rfl, le_rfl⟩
  | v2 => exact ⟨rfl, rfl, rfl, room⟩

private theorem data_of_live (stored : record.Stored memory offset) (live : record.live = true) :
    ByteMemory.read memory (offset + record.decoded.headerSize) record.payload.length =
      record.payload := by
  obtain ⟨format, payload, mark, state⟩ := record
  subst live
  cases format with
  | v1 => exact stored.2.2.2
  | v2 => exact stored.2.2.2.2

/-- A live extent reads as its payload. -/
theorem read_of_live (stored : record.Stored region.buffer offset) (sound : record.Sound)
    (live : record.live = true) (inside : offset + record.size ≤ region.size) :
    region.read offset = some record.payload := by
  have decodes := readDecodedHeader_of_stored stored sound
    (by rwa [footprint_of_live live])
  obtain ⟨magic, length, _, room⟩ := decoded_of_live live
  simp only [LargeObjectRegion.read, decodes, Option.bind_eq_bind, Option.bind_some, length]
  rw [if_neg (not_not_intro magic), if_neg (by omega), data_of_live stored live]

/-- A released extent reads as nothing. -/
theorem read_of_released (stored : record.Stored region.buffer offset) (sound : record.Sound)
    (released : record.live = false) (inside : offset + record.footprint ≤ region.size) :
    region.read offset = none := by
  have decodes := readDecodedHeader_of_stored stored sound inside
  have lost : record.decoded.magic ≠ extentMagic := by
    have format : record.format = .v2 := by
      cases format : record.format with
      | v1 => simp [sound.legacy format] at released
      | v2 => rfl
    simp only [decoded, format, released]
    decide
  simp only [LargeObjectRegion.read, decodes, Option.bind_eq_bind, Option.bind_some, if_pos lost]

end Reading

section Writing

/-- The fields of a header as it lies in memory. -/
theorem words_of_header (memory : Memory) (offset : ℕ) (header : ExtentHeaderV2) :
    let written := write memory offset header.toBytes
    word written 4 offset = header.magic % 2 ^ 32 ∧ written (offset + 4) = header.version ∧
      word written 4 (offset + 8) = header.dataLen % 2 ^ 32 ∧
      word written 8 (offset + 16) = header.epochMark % 2 ^ 64 ∧
      word written 8 (offset + 24) = header.checksum % 2 ^ 64 := by
  intro written
  have slice : ∀ skip width value : ℕ, skip + width ≤ 32 →
      (header.toBytes.drop skip).take width = encode width value →
      word written width (offset + skip) = value % 256 ^ width := by
    intro skip width value bound bytes
    rw [word_write_inside (by simpa [headerSize] using bound), bytes, decode_encode]
  refine ⟨slice 0 4 _ (by decide) rfl, ?_, slice 8 4 _ (by decide) rfl,
    slice 16 8 _ (by decide) rfl, slice 24 8 _ (by decide) rfl⟩
  exact write_inside (by simp [headerSize])

/-- A header and the data behind it store a live V2 record of as much data as the 32-bit length field
can tell. -/
theorem stored_putExtent_cut (region : LargeObjectRegion) (offset : ℕ) (data : Bytes) (checksum : ℕ) :
    Stored ⟨.v2, data.take (data.length % 2 ^ 32), 0, true⟩
      (region.putExtent offset data checksum).buffer offset := by
  obtain ⟨magic, version, length, epoch, _⟩ := words_of_header region.buffer offset
    ⟨extentMagic, 1, data.length, 0, checksum⟩
  have cut : data.length % 2 ^ 32 ≤ data.length := Nat.mod_le _ _
  simp only [LargeObjectRegion.putExtent, Stored, headerSize, List.length_take, Nat.min_eq_left cut]
  refine ⟨?_, ?_, ?_, ?_, ?_⟩
  · rw [word_write_outside (.inl (by omega)), magic]
    rfl
  · rw [write_outside (.inl (by omega)), version]
  · rw [word_write_outside (.inl (by omega)), length]
  · rw [word_write_outside (.inl (by omega)), epoch]
    rfl
  · rw [← read_take cut, read_write]

theorem stored_putExtent (region : LargeObjectRegion) (offset : ℕ) {data : Bytes} (checksum : ℕ)
    (short : data.length < 2 ^ 32) :
    Stored ⟨.v2, data, 0, true⟩ (region.putExtent offset data checksum).buffer offset := by
  have stored := stored_putExtent_cut region offset data checksum
  rwa [Nat.mod_eq_of_lt short, List.take_length] at stored

/-- Writing an extent leaves the bytes outside its range alone. -/
theorem putExtent_outside (region : LargeObjectRegion) (offset : ℕ) (data : Bytes) (checksum : ℕ)
    (query : ℕ) (outside : ¬ Contains (offset, extentTotal data.length) query) :
    (region.putExtent offset data checksum).buffer query = region.buffer query := by
  have room := le_extentTotal data.length
  simp only [headerSize] at room
  simp only [Contains] at outside
  simp only [LargeObjectRegion.putExtent]
  rw [write_outside (by simp only [headerSize]; omega),
    write_outside (by simp only [ExtentHeaderV2.toBytes_length, headerSize]; omega)]

/-- The five writes of a V1 extent store a live V1 record. -/
theorem stored_writeExtentV1 {region : LargeObjectRegion} {data : Bytes}
    (short : data.length < 2 ^ 64) (fits : ¬ region.nextOffset + (24 + data.length) > region.size) :
    Stored ⟨.v1, data, 0, true⟩ (region.writeExtentV1 data).1.buffer region.nextOffset := by
  simp only [LargeObjectRegion.writeExtentV1, if_neg fits, Stored]
  refine ⟨?_, ?_, ?_, read_write _ _ _⟩
  · rw [word_write_outside (.inl (by omega)), word_write_outside (.inl (by omega)),
      word_write_outside (.inl (by omega)), word_write_outside (.inl (by omega)),
      word_write short]
  · rw [word_write_outside (.inl (by omega)), word_write_outside (.inl (by omega)),
      word_write_outside (.inl (by omega)), word_write (by decide)]
  · rw [word_write_outside (.inl (by omega)), word_write_outside (.inl (by omega)),
      word_write (by decide)]

theorem writeExtentV1_outside (region : LargeObjectRegion) (data : Bytes) (query : ℕ)
    (outside : ¬ Contains (region.nextOffset, 24 + data.length) query) :
    (region.writeExtentV1 data).1.buffer query = region.buffer query := by
  simp only [Contains] at outside
  simp only [LargeObjectRegion.writeExtentV1]
  split
  · rfl
  · simp only
    rw [write_outside (by omega),
      write_outside (by simp only [List.length_cons, List.length_nil]; omega),
      write_outside (by rw [encode_length]; omega), write_outside (by rw [encode_length]; omega),
      write_outside (by rw [encode_length]; omega)]

/-- Zeroing the magic of a live V2 extent stores its released record. -/
theorem Stored.zeroMagic {payload : Bytes} {mark : BitVec 64}
    (stored : Stored ⟨.v2, payload, mark, true⟩ memory offset) :
    Stored ⟨.v2, payload, mark, false⟩ (write memory offset [0, 0, 0, 0]) offset := by
  obtain ⟨_, _, _, epoch, _⟩ := stored
  refine ⟨?_, ?_⟩
  · have zeros : ([0, 0, 0, 0] : Bytes) = encode 4 0 := rfl
    rw [zeros, word_write (by decide)]
  · rw [word_write_outside (.inr (by simp)), epoch]

/-- Storing an epoch in a live V2 extent changes its mark. -/
theorem Stored.mark {payload : Bytes} {mark : BitVec 64} (epoch : BitVec 64)
    (stored : Stored ⟨.v2, payload, mark, true⟩ memory offset) :
    Stored ⟨.v2, payload, epoch, true⟩ (write memory (offset + 16) (encode 8 epoch.toNat)) offset := by
  obtain ⟨magic, version, length, _, data⟩ := stored
  refine ⟨?_, ?_, ?_, word_write epoch.isLt, ?_⟩
  · rw [word_write_outside (.inl (by omega)), magic]
  · rw [write_outside (.inl (by omega)), version]
  · rw [word_write_outside (.inl (by omega)), length]
  · rw [read_write_outside (.inr (by rw [encode_length]; omega)), data]

end Writing

section Allocation

variable {region next : LargeObjectRegion} {data : Bytes}

/-- First fit takes out a range of the free list that is large enough. -/
theorem firstFit_spec {freeList : List Range} {needed idx : ℕ}
    (chosen : (freeList.findIdx? fun entry => entry.2 ≥ needed) = some idx) :
    freeList.Perm (freeList.getD idx (0, 0) :: freeList.eraseIdx idx) ∧
      needed ≤ (freeList.getD idx (0, 0)).2 := by
  obtain ⟨bound, large, _⟩ := List.findIdx?_eq_some_iff_getElem.mp chosen
  rw [List.getD_eq_getElem _ _ bound]
  exact ⟨(List.getElem_cons_eraseIdx_perm bound).symm, of_decide_eq_true large⟩

/-- Where the space of a new extent comes from: the front of a free range, whose rest stays free, or the
space behind the bump pointer. -/
inductive Takes (region next : LargeObjectRegion) (offset needed : ℕ) : Prop
  | reuse (length : ℕ) (removed : List Range)
      (chosen : region.freeList.Perm ((offset, length) :: removed)) (large : needed ≤ length)
      (upper : next.nextOffset = region.nextOffset)
      (freeList : next.freeList =
        if length > needed then removed ++ [(offset + needed, length - needed)] else removed)
  | bump (place : offset = region.nextOffset) (room : offset + needed ≤ region.size)
      (upper : next.nextOffset = offset + needed) (freeList : next.freeList = region.freeList)

/-- A V2 extent was written to space that was taken for it. -/
structure Puts (region next : LargeObjectRegion) (offset : ℕ) (data : Bytes) (checksum : ℕ) : Prop where
  size : next.size = region.size
  allocated : next.allocated = insert offset region.allocated
  buffer : next.buffer = (region.putExtent offset data checksum).buffer
  takes : Takes region next offset (extentTotal data.length)

/-- Everything a successful allocation does. -/
theorem allocate_puts (allocated : region.allocate data = (next, some offset)) :
    Puts region next offset data 0 := by
  simp only [LargeObjectRegion.allocate] at allocated
  split at allocated
  · next idx chosen =>
      obtain ⟨perm, large⟩ := firstFit_spec chosen
      cases allocated
      exact ⟨rfl, rfl, rfl, .reuse _ _ perm large rfl rfl⟩
  · split at allocated
    · cases allocated
    · next room =>
        cases allocated
        exact ⟨rfl, rfl, rfl, .bump rfl (Nat.le_of_not_lt room) rfl rfl⟩

theorem writeExtentV2Checksummed_puts {xxh64 : Xxh64}
    (written : region.writeExtentV2Checksummed xxh64 data = (next, some offset)) :
    Puts region next offset data (xxh64 data 0).toNat := by
  simp only [LargeObjectRegion.writeExtentV2Checksummed] at written
  split at written
  · cases written
  · next room =>
      cases written
      exact ⟨rfl, rfl, rfl, .bump rfl (Nat.le_of_not_lt room) rfl rfl⟩

/-- A successful allocation writes its extent at the start of a free range or at the bump pointer,
and fits there. -/
theorem allocate_eq_some (allocated : region.allocate data = (next, some offset)) :
    next.size = region.size ∧ next.allocated = insert offset region.allocated ∧
      next.buffer = (region.putExtent offset data 0).buffer ∧
      ((∃ range ∈ region.freeList, range.1 = offset ∧ extentTotal data.length ≤ range.2) ∨
        offset = region.nextOffset ∧ offset + extentTotal data.length ≤ region.size) := by
  obtain ⟨size, grown, buffer, takes⟩ := allocate_puts allocated
  refine ⟨size, grown, buffer, ?_⟩
  cases takes with
  | reuse length removed chosen large upper freeList =>
      exact .inl ⟨(offset, length), chosen.mem_iff.mpr List.mem_cons_self, rfl, large⟩
  | bump place room upper freeList => exact .inr ⟨place, room⟩

/-- A failed allocation changes nothing. -/
theorem allocate_eq_none (failed : region.allocate data = (next, none)) : next = region := by
  simp only [LargeObjectRegion.allocate] at failed
  split at failed
  · cases failed
  · split at failed
    · cases failed
      rfl
    · cases failed

theorem writeExtentV2Checksummed_eq_none {xxh64 : Xxh64}
    (failed : region.writeExtentV2Checksummed xxh64 data = (next, none)) : next = region := by
  simp only [LargeObjectRegion.writeExtentV2Checksummed] at failed
  split at failed
  · cases failed
    rfl
  · cases failed

theorem allocate_fits (inside : ∀ range ∈ region.freeList, range.1 + range.2 ≤ region.size)
    (allocated : region.allocate data = (next, some offset)) :
    offset + extentTotal data.length ≤ region.size := by
  rcases (allocate_eq_some allocated).2.2.2 with ⟨range, member, rfl, large⟩ | ⟨_, fits⟩
  · have := inside range member
    omega
  · exact fits

/-- A fresh V2 extent is read back up to the length its header can tell. -/
theorem read_putExtent {checksum : ℕ} (buffer : next.buffer = (region.putExtent offset data checksum).buffer)
    (fits : offset + extentTotal data.length ≤ next.size) :
    next.read offset = some (data.take (data.length % 2 ^ 32)) := by
  have cut : data.length % 2 ^ 32 ≤ data.length := Nat.mod_le _ _
  have stored := stored_putExtent_cut region offset data checksum
  rw [← buffer] at stored
  refine read_of_live stored ⟨fun _ => ?_, ?_, by rintro ⟨⟩⟩ rfl ?_
  · simp only [List.length_take]
    omega
  · exact show (0 : BitVec 64).toNat % 2 ^ 32 ≠ extentMagic by decide
  · simp only [ExtentRecord.size, List.length_take, Nat.min_eq_left cut, extentTotal_eq] at fits ⊢
    omega

theorem read_allocate (inside : ∀ range ∈ region.freeList, range.1 + range.2 ≤ region.size)
    (allocated : region.allocate data = (next, some offset)) :
    next.read offset = some (data.take (data.length % 2 ^ 32)) := by
  obtain ⟨size, _, buffer, _⟩ := allocate_eq_some allocated
  exact read_putExtent buffer (size ▸ allocate_fits inside allocated)

end Allocation

end ExtentRecord

end Rdmas.Soundness
