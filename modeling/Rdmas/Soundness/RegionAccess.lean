import Rdmas.Model.ExtentChecked
import Rdmas.Soundness.ExtentLedger

/-! # Region accessors at arbitrary offsets

The checked accessors are compared with the ones on natural numbers. A buffer is shorter than `2 ^ 63`
bytes, as every vector is, so a sum that passes its bounds check cannot have wrapped and the slices lie
in the buffer. Two sums are made before any check: the end of a V1 header at the offset, and the end of
the data, whose length may be any 64-bit number if the header is read as a V1 one.
-/

namespace Rdmas.Soundness

open Rdmas.Model LittleEndian ByteMemory CheckedMemory

section Decoding

variable {region : LargeObjectRegion} {off skip width : ℕ}

theorem checkedField_of_le (small : region.size < 2 ^ 63) (inside : off + (skip + width) ≤ region.size) :
    region.checkedField off skip width = some (word region.buffer width (off + skip)) :=
  field_of_le (small.trans (by decide)) inside

/-- The length and the epoch of a V1 header. -/
theorem checkedField_legacy (small : region.size < 2 ^ 63) (room : off + 24 ≤ region.size) :
    region.checkedField off 0 8 = some (word region.buffer 8 off) ∧
      region.checkedField off 8 8 = some (word region.buffer 8 (off + 8)) :=
  ⟨checkedField_of_le small (by omega), checkedField_of_le small (by omega)⟩

private theorem checkedIsV1_eq (small : region.size < 2 ^ 63) (fits : off + 24 < 2 ^ 64) :
    region.checkedIsV1 off =
      some (decide (off + 24 ≤ region.size ∧ word region.buffer 4 (off + 16) = extentMagic)) := by
  rw [LargeObjectRegion.checkedIsV1, sum_of_lt fits]
  by_cases inside : off + 24 ≤ region.size
  · have magic : region.checkedField off 16 4 = some (word region.buffer 4 (off + 16)) :=
      checkedField_of_le small (by omega)
    simp only [Option.bind_eq_bind, Option.bind_some, magic, inside, true_and]
    rfl
  · simp only [Option.bind_eq_bind, Option.bind_some, inside, false_and, decide_false]
    rfl

private theorem checkedReadV2_eq (small : region.size < 2 ^ 63) (fits : off + 24 < 2 ^ 64)
    (modern : ¬ (off + 24 ≤ region.size ∧ word region.buffer 4 (off + 16) = extentMagic)) :
    region.checkedReadV2 off = some (region.readDecodedHeader off) := by
  have versionEnd : sum 64 off 5 = some (off + 5) := sum_of_lt (by omega)
  simp only [LargeObjectRegion.checkedReadV2, LargeObjectRegion.readDecodedHeader, if_neg modern,
    versionEnd, Option.bind_eq_bind, Option.bind_some]
  by_cases inside : off + 5 ≤ region.size
  · have first : region.checkedField off 0 4 = some (word region.buffer 4 off) :=
      checkedField_of_le small (by omega)
    simp only [if_pos inside, first, Option.bind_some]
    by_cases magic : word region.buffer 4 off = extentMagic
    · have versionAt : sum 64 off 4 = some (off + 4) := sum_of_lt (by omega)
      have version : get region.buffer region.size (off + 4) = some (region.buffer (off + 4)) :=
        get_of_lt (by omega)
      have legacyEnd : sum 64 off 24 = some (off + 24) := sum_of_lt fits
      -- The offset is in the buffer by now, far below the end of the address space.
      have headerEnd : sum 64 off 32 = some (off + 32) := sum_of_lt (by omega)
      simp only [if_neg (not_not_intro magic), versionAt, version, Option.bind_some]
      generalize (region.buffer (off + 4)).toNat = version
      rcases version with _ | _ | version
      · simp only [legacyEnd, Option.bind_some]
        split
        · rfl
        · obtain ⟨length, epoch⟩ := checkedField_legacy small (show off + 24 ≤ region.size by omega)
          rw [length, epoch]
          rfl
      · simp only [Nat.zero_add, headerEnd, Option.bind_some]
        split
        · rfl
        · have length : region.checkedField off 8 4 = some (word region.buffer 4 (off + 8)) :=
            checkedField_of_le small (by omega)
          have epoch : region.checkedField off 16 8 = some (word region.buffer 8 (off + 16)) :=
            checkedField_of_le small (by omega)
          rw [length, epoch]
          rfl
      · rfl
    · simp only [if_pos magic]
      rfl
  · simp only [if_neg inside]
    rfl

private theorem checkedReadDecodedHeader_of_lt (small : region.size < 2 ^ 63) (fits : off + 24 < 2 ^ 64) :
    region.checkedReadDecodedHeader off = some (region.readDecodedHeader off) := by
  simp only [LargeObjectRegion.checkedReadDecodedHeader, checkedIsV1_eq small fits, Option.bind_eq_bind,
    Option.bind_some, decide_eq_true_eq]
  by_cases legacy : off + 24 ≤ region.size ∧ word region.buffer 4 (off + 16) = extentMagic
  · obtain ⟨length, epoch⟩ := checkedField_legacy small legacy.1
    simp only [LargeObjectRegion.readDecodedHeader]
    rw [if_pos legacy, if_pos legacy, legacy.2, length, epoch]
    rfl
  · rw [if_neg legacy]
    exact checkedReadV2_eq small fits legacy

/-- The first sum of the decoder wraps. -/
theorem checkedReadDecodedHeader_eq_none (wraps : 2 ^ 64 ≤ off + 24) :
    region.checkedReadDecodedHeader off = none := by
  rw [LargeObjectRegion.checkedReadDecodedHeader, LargeObjectRegion.checkedIsV1, sum_eq_none wraps]
  rfl

end Decoding

/-- At the offset no sum of an accessor wraps: the end of a V1 header there, and of the data if the bytes
there decode as a header. -/
def SumsFit (region : LargeObjectRegion) (offset : ℕ) : Prop :=
  offset + 24 < 2 ^ 64 ∧ ∀ decoded ∈ region.readDecodedHeader offset, decoded.magic = extentMagic →
    offset + decoded.headerSize + decoded.dataLen < 2 ^ 64

section Accessors

variable {region : LargeObjectRegion} {offset : ℕ}

/-- With sums that fit, a read returns what the unchecked one does. -/
theorem checkedRead_of_sumsFit (small : region.size < 2 ^ 63) (fit : SumsFit region offset) :
    region.checkedRead offset = some (region.read offset) := by
  obtain ⟨header, data⟩ := fit
  rw [LargeObjectRegion.checkedRead, checkedReadDecodedHeader_of_lt small header, LargeObjectRegion.read]
  cases decodes : region.readDecodedHeader offset with
  | none => rfl
  | some decoded =>
    simp only [Option.bind_eq_bind, Option.bind_some]
    by_cases magic : decoded.magic = extentMagic
    · have ends := data decoded decodes magic
      have start : sum 64 offset decoded.headerSize = some (offset + decoded.headerSize) :=
        sum_of_lt (by omega)
      simp only [if_neg (not_not_intro magic), start, sum_of_lt ends, Option.bind_some]
      split
      · rfl
      · next inside =>
          have between : offset + decoded.headerSize + decoded.dataLen - (offset + decoded.headerSize) =
              decoded.dataLen := by omega
          rw [slice_of_le (Nat.le_add_right _ _) (Nat.le_of_not_lt inside), between]
          rfl
    · simp only [if_pos magic]
      rfl

/-- A read whose sums do not fit panics. -/
theorem checkedRead_eq_none (small : region.size < 2 ^ 63) (wraps : ¬ SumsFit region offset) :
    region.checkedRead offset = none := by
  rw [LargeObjectRegion.checkedRead]
  by_cases header : offset + 24 < 2 ^ 64
  · rw [checkedReadDecodedHeader_of_lt small header]
    simp only [SumsFit, header, true_and, not_forall] at wraps
    obtain ⟨decoded, decodes, magic, wraps⟩ := wraps
    have inside := (decoded_bounds decodes magic).1
    have start : sum 64 offset decoded.headerSize = some (offset + decoded.headerSize) :=
      sum_of_lt (by omega)
    rw [Option.mem_def] at decodes
    simp only [decodes, Option.bind_eq_bind, Option.bind_some, if_neg (not_not_intro magic), start,
      sum_eq_none (Nat.not_lt.mp wraps)]
    rfl
  · rw [checkedReadDecodedHeader_eq_none (Nat.not_lt.mp header)]
    rfl

private theorem checkedReadChecksum_of_lt (small : region.size < 2 ^ 63) (header : offset + 24 < 2 ^ 64) :
    region.checkedReadChecksum offset = some (region.readChecksum offset) := by
  rw [LargeObjectRegion.checkedReadChecksum, checkedReadDecodedHeader_of_lt small header,
    LargeObjectRegion.readChecksum]
  cases decodes : region.readDecodedHeader offset with
  | none => rfl
  | some decoded =>
    simp only [Option.bind_eq_bind, Option.bind_some]
    by_cases modern : decoded.isV2 = true
    · have room := (decoded_bounds decodes (magic_of_isV2 decodes modern)).1
      have stop : sum 64 offset 32 = some (offset + 32) := sum_of_lt (by omega)
      simp only [modern, Bool.not_true, Bool.false_eq_true, if_false, stop, Option.bind_some]
      split
      · rfl
      · next inside =>
          have checksum : region.checkedField offset 24 8 = some (word region.buffer 8 (offset + 24)) :=
            checkedField_of_le small (by omega)
          rw [checksum]
          rfl
    · simp only [Bool.eq_false_iff.mpr modern, Bool.not_false, if_true]
      rfl

theorem checkedMarkForGc_of_lt (small : region.size < 2 ^ 63) (header : offset + 24 < 2 ^ 64)
    (epoch : BitVec 64) :
    region.checkedMarkForGc offset epoch = some (region.markForGc offset epoch) := by
  rw [LargeObjectRegion.checkedMarkForGc, checkedReadDecodedHeader_of_lt small header,
    LargeObjectRegion.markForGc]
  cases decodes : region.readDecodedHeader offset with
  | none => rfl
  | some decoded =>
    have start : sum 64 offset 16 = some (offset + 16) := sum_of_lt (by omega)
    have stop : sum 64 (offset + 16) 8 = some (offset + 16 + 8) := sum_of_lt (by omega)
    simp only [Option.bind_eq_bind, Option.bind_some, start, stop]
    split
    · rfl
    · split
      · next inside =>
          rw [slice_of_le (Nat.le_add_right _ _) inside]
          rfl
      · rfl

private theorem checkedExtentTotal_of_lt {dataLen : ℕ} (short : dataLen < 2 ^ 32) :
    checkedExtentTotal dataLen = some (extentTotal dataLen) := by
  have val : sum 64 headerSize dataLen = some (headerSize + dataLen) :=
    sum_of_lt (by rw [headerSize]; omega)
  have total : sum 64 (headerSize + dataLen) extentAlign = some (headerSize + dataLen + extentAlign) :=
    sum_of_lt (by rw [headerSize, extentAlign]; omega)
  rw [checkedExtentTotal, val]
  simp only [Option.bind_eq_bind, Option.bind_some, total]
  rfl

private theorem checkedZeroMagic_of_le (inside : offset + 4 ≤ region.size) (small : region.size < 2 ^ 63) :
    region.checkedZeroMagic offset = some (region.zeroMagic offset) := by
  rw [LargeObjectRegion.checkedZeroMagic, sum_of_lt (by omega), LargeObjectRegion.zeroMagic]
  simp only [Option.bind_eq_bind, Option.bind_some, if_pos inside,
    slice_of_le (Nat.le_add_right _ _) inside]
  rfl

theorem checkedFree_of_sumsFit (small : region.size < 2 ^ 63) (fit : SumsFit region offset) :
    region.checkedFree offset = some (region.free offset) := by
  obtain ⟨header, data⟩ := fit
  rw [LargeObjectRegion.checkedFree, checkedReadDecodedHeader_of_lt small header, LargeObjectRegion.free]
  by_cases missing : offset ∉ region.allocated
  · rw [if_pos missing, if_pos missing]
    rfl
  rw [if_neg missing, if_neg missing]
  cases decodes : region.readDecodedHeader offset with
  | none => rfl
  | some decoded =>
    simp only [Option.bind_eq_bind, Option.bind_some]
    by_cases magic : decoded.magic = extentMagic
    · obtain ⟨inside, short⟩ := decoded_bounds decodes magic
      have ends := data decoded decodes magic
      have fourth : 4 ≤ decoded.headerSize := by
        rw [DecodedHeader.headerSize]
        split <;> decide
      have total : decoded.checkedTotalLen = some decoded.totalLen := by
        rw [DecodedHeader.checkedTotalLen, DecodedHeader.totalLen]
        split
        · next modern => exact checkedExtentTotal_of_lt (short modern)
        · next legacy =>
            rw [DecodedHeader.headerSize, if_neg legacy] at ends
            exact sum_of_lt (by omega)
      have zeroed : region.checkedZeroMagic offset = some (region.zeroMagic offset) :=
        checkedZeroMagic_of_le (by omega) small
      simp only [if_neg (not_not_intro magic), total, zeroed, Option.bind_some]
      rfl
    · simp only [if_pos magic]
      rfl

end Accessors

/-- The four accessors return a value at the offset, whatever epoch is marked. -/
structure AccessorsReturn (region : LargeObjectRegion) (offset : ℕ) : Prop where
  read : (region.checkedRead offset).isSome
  readChecksum : (region.checkedReadChecksum offset).isSome
  markForGc : ∀ epoch, (region.checkedMarkForGc offset epoch).isSome
  free : (region.checkedFree offset).isSome

/-- In a region of any contents, read, read_checksum, mark_for_gc and free return a value at an offset
exactly when no sum of an accessor wraps there. -/
theorem accessors_return_iff (region : LargeObjectRegion) (small : region.size < 2 ^ 63)
    (offset : BitVec 64) : AccessorsReturn region offset.toNat ↔ SumsFit region offset.toNat := by
  constructor
  · intro returns
    by_contra wraps
    have panics := returns.read
    rw [checkedRead_eq_none small wraps] at panics
    cases panics
  · intro fit
    constructor
    case read => rw [checkedRead_of_sumsFit small fit]; rfl
    case readChecksum => rw [checkedReadChecksum_of_lt small fit.1]; rfl
    case markForGc =>
      intro epoch
      rw [checkedMarkForGc_of_lt small fit.1]
      rfl
    case free => rw [checkedFree_of_sumsFit small fit]; rfl

/-- The accessors return at an allocated extent. -/
theorem accessors_return_at_extent :
    let region := (RegionState.run (fun _ _ => 0) (.fresh 64) [.allocate [7]]).region
    region.checkedRead 0 = some (some [7]) ∧ AccessorsReturn region 0 := by
  intro region
  have decodes : region.readDecodedHeader 0 = some ⟨extentMagic, 1, 0, true⟩ := by decide +kernel
  refine ⟨by decide +kernel, (accessors_return_iff region (by decide +kernel) 0).mpr ⟨by decide, ?_⟩⟩
  rintro decoded found -
  obtain rfl := Option.some.inj (decodes.symm.trans found)
  decide

/-- A payload with the bytes of a V1 header of a length close to `2 ^ 64`. -/
def imitation : Bytes := encode 8 (2 ^ 64 - 1) ++ encode 8 0 ++ encode 4 extentMagic ++ encode 4 0

/-- In a fresh region every accessor but `free` panics at an offset close to `2 ^ 64`. A read of an
offset that points at a payload with the bytes of a V1 header panics as well. -/
theorem accessors_panic :
    let region := LargeObjectRegion.new 64
    let filled := (RegionState.run (fun _ _ => 0) (.fresh 64) [.allocate imitation]).region
    region.checkedRead (2 ^ 64 - 8) = none ∧ region.checkedReadChecksum (2 ^ 64 - 8) = none ∧
      (region.checkedMarkForGc (2 ^ 64 - 8) 1).isNone ∧ filled.checkedRead 32 = none := by
  intro region filled
  refine ⟨?_, ?_, ?_, ?_⟩
  · decide +kernel
  · decide +kernel
  · decide +kernel
  · decide +kernel

end Rdmas.Soundness
