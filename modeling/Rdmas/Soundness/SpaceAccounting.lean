import Mathlib.Algebra.Order.BigOperators.Group.Finset
import Rdmas.Soundness.MarkedExtent

/-! # Space accounting

The ranges that the headers of the allocated extents say, together with the free list, add up to what the
bump pointer has advanced by: every call moves ranges between the two, or adds one. `used_bytes` does not
sum these ranges. It rounds the length of every extent up to the footprint of a V2 extent, so it is right
for those and too large for each allocated V1 extent.
-/

namespace Rdmas.Soundness

open Rdmas.Model LittleEndian ByteMemory Tiling Runs ExtentRecord

/-- The payload that a call writes is shorter than 2^32 bytes. -/
def ShortPayload : RegionOp → Prop
  | .allocate data | .writeExtentV1 data | .writeExtentV2Checksummed data => data.length < 2 ^ 32
  | .free _ | .markForGc _ _ | .sweep _ _ => True

instance : (op : RegionOp) → Decidable (ShortPayload op)
  | .allocate _ | .writeExtentV1 _ | .writeExtentV2Checksummed _ => inferInstanceAs (Decidable (_ < _))
  | .free _ | .markForGc _ _ | .sweep _ _ => instDecidableTrue

instance (region : LargeObjectRegion) (offset : ℕ) : Decidable (ModernHeader region offset) :=
  decidable_of_iff (offset + 32 ≤ region.size ∧ word region.buffer 4 (offset + 16) ≠ extentMagic ∧
      word region.buffer 4 offset = extentMagic ∧ region.buffer (offset + 4) = 1)
    ⟨fun ⟨room, unmistakable, magic, version⟩ => ⟨room, unmistakable, magic, version⟩,
      fun modern => ⟨modern.room, modern.unmistakable, modern.magic, modern.version⟩⟩

/-- The calls whose space is accounted for. Marks are among them, so that sweeps find something to free. -/
def Counted (region : LargeObjectRegion) (op : RegionOp) : Prop :=
  ShortPayload op ∧ HarmlessMark region op

instance (region : LargeObjectRegion) (op : RegionOp) : Decidable (Counted region op) :=
  inferInstanceAs (Decidable (_ ∧ _))

/-- The statistics of the region add up. -/
def AccountsExactly (region : LargeObjectRegion) : Prop :=
  region.usedBytes + (region.freeList.map Prod.snd).sum = region.nextOffset ∧
    region.usedBytes ≤ region.capacity

/-- A packed region whose ranges add up to what was ever set aside. -/
structure Balanced (region : LargeObjectRegion) : Prop where
  packed : Packed region
  total : total (packedRanges region) = region.nextOffset

private theorem balanced_new {size : ℕ} (small : size < 2 ^ 63) : Balanced (.new size) :=
  ⟨packed_new small, rfl⟩

namespace Balanced

variable {region next : LargeObjectRegion} {offset : ℕ} {decoded : DecodedHeader} {data : Bytes}
variable {xxh64 : Xxh64} {op : RegionOp}

/-- A call that writes an extent takes its range from the free list or from behind the bump pointer. -/
theorem write (balanced : Balanced region)
    (kept : Packed next ∧ ∀ other ∈ region.allocated, Spared region next other)
    (vacant : offset ∉ region.allocated) (allocated : next.allocated = insert offset region.allocated)
    (decodes : next.readDecodedHeader offset = some decoded)
    (moved : decoded.totalLen + Tiling.total next.freeList + region.nextOffset =
      Tiling.total region.freeList + next.nextOffset) : Balanced next := by
  refine ⟨kept.1, ?_⟩
  have before := balanced.total
  rw [packedRanges, total_add] at before
  rw [Packed.packedRanges_insert vacant allocated kept.2 decodes, total_cons, total_add]
  omega

/-- The space taken for an extent is no longer free, or was never set aside before. -/
theorem total_takes {needed : ℕ} (takes : Takes region next offset needed) :
    needed + Tiling.total next.freeList + region.nextOffset =
      Tiling.total region.freeList + next.nextOffset := by
  cases takes with
  | reuse length removed chosen large upper freeList =>
      rw [upper, freeList, Multiset.coe_eq_coe.mpr chosen, ← Multiset.cons_coe, total_cons]
      split
      · rw [← Multiset.coe_add, total_add, total_coe [_], List.map_singleton, List.sum_singleton]
        omega
      · omega
  | bump place room upper freeList =>
      rw [upper, freeList, place]
      omega

theorem puts (balanced : Balanced region) (short : data.length < 2 ^ 32) {checksum : ℕ}
    (puts : Puts region next offset data checksum) : Balanced next := by
  obtain ⟨reserved, others, large, packs, _⟩ := balanced.packed.set_aside puts.takes
  have header := le_extentTotal data.length
  rw [headerSize] at header
  have positive : 0 < reserved := by omega
  have decodes := Packed.decodes_of_putExtent puts.buffer (balanced.packed.inside_of_puts puts)
  rw [Nat.mod_eq_of_lt short] at decodes
  exact balanced.write (balanced.packed.puts puts) (balanced.packed.vacant positive packs) puts.allocated
    decodes (total_takes puts.takes)

theorem allocate (balanced : Balanced region) (short : data.length < 2 ^ 32) :
    Balanced (region.allocate data).1 := by
  rcases called : region.allocate data with ⟨next, _ | offset⟩
  · exact allocate_eq_none called ▸ balanced
  · exact balanced.puts short (allocate_puts called)

theorem writeExtentV2Checksummed (balanced : Balanced region) (short : data.length < 2 ^ 32) :
    Balanced (region.writeExtentV2Checksummed xxh64 data).1 := by
  rcases called : region.writeExtentV2Checksummed xxh64 data with ⟨next, _ | offset⟩
  · exact writeExtentV2Checksummed_eq_none called ▸ balanced
  · exact balanced.puts short (writeExtentV2Checksummed_puts called)

theorem writeExtentV1 (balanced : Balanced region) : Balanced (region.writeExtentV1 data).1 := by
  have kept := balanced.packed.writeExtentV1 data
  by_cases full : region.nextOffset + (24 + data.length) > region.size
  · simp only [LargeObjectRegion.writeExtentV1, if_pos full]
    exact balanced
  · have small := balanced.packed.small
    have stored := stored_writeExtentV1 (by omega) full
    simp only [LargeObjectRegion.writeExtentV1, if_neg full] at kept stored ⊢
    have vacant : region.nextOffset ∉ region.allocated :=
      balanced.packed.vacant Nat.one_pos (balanced.packed.packs_bump 1)
    exact balanced.write kept vacant rfl (readDecodedHeader_of_stored stored
      (RegionState.sound_v1 data) (Nat.le_of_not_lt full))
      (total_takes (.bump rfl (Nat.le_of_not_lt full) rfl rfl))

/-- Releases move ranges to the free list. -/
theorem releases (balanced : Balanced region) (releases : Releases region next) : Balanced next := by
  induction releases with
  | nothing region => exact balanced
  | release member decodes rest ih =>
    refine ih ⟨(balanced.packed.release member decodes).1, ?_⟩
    rw [balanced.packed.packedRanges_release member decodes, Packed.nextOffset_release, balanced.total]

/-- Every counted call keeps the balance. -/
theorem step (balanced : Balanced region) (counted : Counted region op)
    (taken : regionStep xxh64 region op = some next) : Balanced next := by
  obtain ⟨short, harmless⟩ := counted
  have packed := balanced.packed
  cases op with
  | allocate data =>
    cases taken
    exact balanced.allocate short
  | writeExtentV1 data =>
    cases taken
    exact balanced.writeExtentV1
  | writeExtentV2Checksummed data =>
    cases taken
    exact balanced.writeExtentV2Checksummed short
  | free offset =>
    rw [regionStep, packed.checkedFree_eq] at taken
    cases taken
    exact balanced.releases (packed.releases_free offset)
  | markForGc offset epoch =>
    obtain ⟨fits, harmless⟩ := harmless
    rw [regionStep, checkedMarkForGc_of_lt packed.small fits] at taken
    cases taken
    rcases packed.mark_cases harmless with ⟨member, wrote, spared⟩ | ⟨error, unchanged⟩
    · have ranges : packedRanges (marked region offset epoch) = packedRanges region :=
        Packed.packedRanges_of_spared rfl rfl spared
      rw [wrote]
      exact ⟨packed.of_spared rfl spared, (congrArg Tiling.total ranges).trans balanced.total⟩
    · rw [unchanged]
      exact balanced
  | sweep minActiveEpoch order =>
    simp only [regionStep, Option.ite_none_right_eq_some, Option.some.injEq] at taken
    obtain ⟨⟨distinct, enumerates⟩, rfl⟩ := taken
    refine balanced.releases (releases_sweep minActiveEpoch distinct fun offset member => ?_)
    rw [← enumerates]
    exact List.mem_toFinset.mpr member

end Balanced

section UsedBytes

variable {region : LargeObjectRegion}

/-- The footprint of a V2 extent is the range it takes; for a V1 extent it is larger. -/
theorem totalLen_le (decoded : DecodedHeader) :
    decoded.totalLen ≤ extentTotal decoded.dataLen ∧
      (decoded.totalLen = extentTotal decoded.dataLen ↔ decoded.isV2 = true) := by
  rw [DecodedHeader.totalLen]
  have header := le_extentTotal decoded.dataLen
  rw [headerSize] at header
  split
  · next modern => exact ⟨le_rfl, iff_of_true rfl modern⟩
  · next legacy => exact ⟨by omega, iff_of_false (by omega) legacy⟩

/-- The bytes of the allocated extents, by the ranges of their headers. -/
theorem total_extentRanges (region : LargeObjectRegion) :
    Tiling.total (region.allocated.val.map (extentRange region)) =
      ∑ offset ∈ region.allocated, (extentRange region offset).2 := by
  rw [Tiling.total, Multiset.map_map]
  rfl

/-- The used bytes are at least those of the ranges, and no more exactly if all extents are V2. -/
theorem Packed.usedBytes_eq_iff (packed : Packed region) :
    region.usedBytes = Tiling.total (region.allocated.val.map (extentRange region)) ↔
      ∀ offset ∈ region.allocated, ModernHeader region offset := by
  have counts : ∀ offset ∈ region.allocated, (extentRange region offset).2 ≤
      ((region.readDecodedHeader offset).map fun decoded => extentTotal decoded.dataLen).getD 0 ∧
      ((extentRange region offset).2 =
        ((region.readDecodedHeader offset).map fun decoded => extentTotal decoded.dataLen).getD 0 ↔
          ModernHeader region offset) := by
    intro offset member
    obtain ⟨decoded, decodes, magic⟩ := packed.headers offset member
    obtain ⟨less, same⟩ := totalLen_le decoded
    rw [extentRange_of_decodes decodes, decodes]
    refine ⟨less, same.trans ?_⟩
    rcases header_of_decodes decodes magic with ⟨legacy, rfl⟩ | ⟨modern, rfl⟩
    · refine iff_of_false Bool.false_ne_true fun modern => ?_
      have same := Option.some.inj (legacy.decodes.symm.trans modern.decodes)
      exact Bool.false_ne_true (congrArg DecodedHeader.isV2 same)
    · exact iff_of_true rfl modern
  rw [eq_comm, total_extentRanges, LargeObjectRegion.usedBytes,
    Finset.sum_eq_sum_iff_of_le fun offset member => (counts offset member).1]
  exact forall₂_congr fun offset member => (counts offset member).2

/-- In a balanced region the statistics are exact exactly if all extents are V2. -/
theorem Balanced.accountsExactly_iff (balanced : Balanced region) :
    AccountsExactly region ↔ ∀ offset ∈ region.allocated, ModernHeader region offset := by
  have total := balanced.total
  have fits := balanced.packed.fits
  rw [packedRanges, total_add, total_coe] at total
  rw [← balanced.packed.usedBytes_eq_iff, AccountsExactly, LargeObjectRegion.capacity]
  omega

end UsedBytes

/-- After every run of counted calls on a fresh region, the used bytes and the free list add up to the bump
pointer and the used bytes stay within the capacity exactly when no V1 extent is allocated. -/
theorem accounts_exactly_iff_all_v2 (xxh64 : Xxh64) (size : ℕ)
    (small : size < 2 ^ 63) (ops : List RegionOp) (region : LargeObjectRegion)
    (counted : Throughout (regionStep xxh64) Counted (.new size) ops)
    (reached : run (regionStep xxh64) (.new size) ops = some region) :
    AccountsExactly region ↔ ∀ offset ∈ region.allocated, ModernHeader region offset :=
  (counted.invariant Balanced.step (balanced_new small) reached).accountsExactly_iff

/-- Two V2 extents, of which one is swept and a part of it reused. -/
theorem accounts_exactly_after_reuse :
    ∃ region, run (regionStep fun _ _ => 0) (.new 128)
        [.allocate [1, 2, 3], .writeExtentV2Checksummed [4], .markForGc 0 5, .sweep 6 [40, 0],
          .allocate []] = some region ∧ region.freeList = [(32, 8)] ∧ AccountsExactly region := by
  have counted : Throughout (regionStep fun _ _ => 0) Counted (.new 128)
      [.allocate [1, 2, 3], .writeExtentV2Checksummed [4], .markForGc 0 5, .sweep 6 [40, 0],
        .allocate []] := by decide +kernel
  refine ⟨_, rfl, by decide +kernel, ?_⟩
  refine (accounts_exactly_iff_all_v2 (fun _ _ => 0) 128 (by decide) _ _ counted rfl).mpr ?_
  decide +kernel

/-- An empty V1 extent fills a region of 24 bytes, of which 32 are said to be used. -/
theorem v1_extent_overcounted :
    let region := ((LargeObjectRegion.new 24).writeExtentV1 []).1
    region.allocated = {0} ∧ region.nextOffset = 24 ∧ region.freeList = [] ∧ region.usedBytes = 32 ∧
      region.capacity = 24 := by
  intro region
  refine ⟨?_, ?_, ?_, ?_, ?_⟩
  · decide +kernel
  · decide +kernel
  · decide +kernel
  · decide +kernel
  · decide +kernel

end Rdmas.Soundness
