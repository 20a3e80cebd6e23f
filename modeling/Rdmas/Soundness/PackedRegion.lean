import Rdmas.Soundness.ExtentLifecycle
import Rdmas.Soundness.LruEviction
import Rdmas.Soundness.RegionAccess

/-! # Packed regions

Without a ledger, what can be said of a region is what its headers say: every allocated extent decodes,
and the ranges given by the headers, together with the free list, do not overlap. Every call keeps this,
and spares the extents that stay allocated: of their bytes at most the mark changes. Nothing is said
about released extents, so V1 extents may be released too.
-/

namespace Rdmas.Soundness

open Rdmas.Model LittleEndian ByteMemory Tiling ExtentRecord

/-- The byte range of an extent, by its header. -/
def extentRange (region : LargeObjectRegion) (offset : ℕ) : Range :=
  (offset, ((region.readDecodedHeader offset).map DecodedHeader.totalLen).getD 0)

/-- The ranges of the allocated extents and of the free list. -/
def packedRanges (region : LargeObjectRegion) : Multiset Range :=
  region.allocated.val.map (extentRange region) + (region.freeList : Multiset Range)

/-- The allocated extents decode, and their ranges and the free ones do not overlap. -/
structure Packed (region : LargeObjectRegion) : Prop where
  small : region.size < 2 ^ 63
  headers : ∀ offset ∈ region.allocated, ∃ decoded,
    region.readDecodedHeader offset = some decoded ∧ decoded.magic = extentMagic
  packs : Packs (packedRanges region) region.nextOffset
  fits : region.nextOffset ≤ region.size

/-- An extent that a call has spared: at most its mark has changed. -/
structure Spared (region next : LargeObjectRegion) (offset : ℕ) : Prop where
  header : ∃ decoded mark, region.readDecodedHeader offset = some decoded ∧
    next.readDecodedHeader offset = some { decoded with epochMark := mark }
  read : next.read offset = region.read offset
  checksum : next.readChecksum offset = region.readChecksum offset

/-- Allocated extents are released one after the other. -/
inductive Releases : LargeObjectRegion → LargeObjectRegion → Prop
  | nothing (region : LargeObjectRegion) : Releases region region
  | release {region next : LargeObjectRegion} {offset : ℕ} {decoded : DecodedHeader}
      (member : offset ∈ region.allocated) (decodes : region.readDecodedHeader offset = some decoded)
      (rest : Releases (region.release offset decoded) next) : Releases region next

theorem Releases.allocated_subset {region next : LargeObjectRegion} (releases : Releases region next) :
    next.allocated ⊆ region.allocated := by
  induction releases with
  | nothing region => exact Finset.Subset.refl _
  | release member decodes rest ih =>
    rw [allocated_release] at ih
    exact ih.trans (Finset.erase_subset _ _)

/-- A sweep over allocated extents releases some of them. -/
theorem releases_sweep {region : LargeObjectRegion} (minActiveEpoch : BitVec 64) {order : List ℕ}
    (distinct : order.Nodup) (listed : ∀ offset ∈ order, offset ∈ region.allocated) :
    Releases region (region.sweep minActiveEpoch order).1 := by
  induction order generalizing region with
  | nil => exact .nothing region
  | cons visited order ih =>
    obtain ⟨fresh, distinct⟩ := List.nodup_cons.mp distinct
    obtain ⟨visitedIn, listed⟩ := List.forall_mem_cons.mp listed
    simp only [LargeObjectRegion.sweep]
    cases test : region.sweepable minActiveEpoch visited with
    | none => exact ih distinct listed
    | some decoded =>
      refine .release visitedIn (Option.filter_eq_some_iff.mp test).1 (ih distinct fun later member => ?_)
      rw [allocated_release]
      exact Finset.mem_erase.mpr ⟨fun same => fresh (same ▸ member), listed later member⟩

theorem packed_new {size : ℕ} (small : size < 2 ^ 63) : Packed (.new size) where
  small := small
  headers offset member := absurd member (Finset.notMem_empty offset)
  packs := packs_zero 0
  fits := Nat.zero_le _

section Ranges

variable {region middle next : LargeObjectRegion} {offset other : ℕ} {decoded : DecodedHeader}

theorem le_totalLen (decoded : DecodedHeader) :
    24 ≤ decoded.headerSize ∧ decoded.headerSize + decoded.dataLen ≤ decoded.totalLen := by
  rw [DecodedHeader.headerSize, DecodedHeader.totalLen]
  split
  · exact ⟨by decide, le_extentTotal decoded.dataLen⟩
  · exact ⟨le_rfl, le_rfl⟩

theorem extentRange_of_decodes (decodes : region.readDecodedHeader offset = some decoded) :
    extentRange region offset = (offset, decoded.totalLen) := by
  rw [extentRange, decodes]
  rfl

/-- An extent whose bytes do not change is spared. -/
theorem spared_of_same (decodes : region.readDecodedHeader offset = some decoded)
    (size : next.size = region.size) (same : ∀ query, Contains (extentRange region offset) query →
      next.buffer query = region.buffer query) : Spared region next offset := by
  obtain ⟨header, room⟩ := le_totalLen decoded
  rw [extentRange_of_decodes decodes] at same
  simp only [Contains] at same
  have still : next.readDecodedHeader offset = some decoded := by
    rw [readDecodedHeader_congr size fun query lower upper =>
      same query ⟨lower, by omega⟩, decodes]
  refine ⟨⟨decoded, decoded.epochMark, decodes, still⟩, ?_, ?_⟩
  · have data : ByteMemory.read next.buffer (offset + decoded.headerSize) decoded.dataLen =
        ByteMemory.read region.buffer (offset + decoded.headerSize) decoded.dataLen :=
      read_congr fun query lower upper => same query ⟨by omega, by omega⟩
    simp only [LargeObjectRegion.read, still, decodes, size, Option.bind_eq_bind, Option.bind_some, data]
  · simp only [LargeObjectRegion.readChecksum, still, decodes, size, Option.bind_eq_bind,
      Option.bind_some]
    by_cases modern : decoded.isV2 = true
    · have field : word next.buffer 8 (offset + 24) = word region.buffer 8 (offset + 24) := by
        rw [DecodedHeader.headerSize, if_pos modern] at room
        exact congrArg decode (read_congr fun query lower upper => same query ⟨by omega, by omega⟩)
      rw [field]
    · simp only [Bool.eq_false_iff.mpr modern, Bool.not_false, if_true]

theorem Spared.trans (first : Spared region middle offset) (second : Spared middle next offset) :
    Spared region next offset := by
  obtain ⟨decoded, _, before, between⟩ := first.header
  obtain ⟨_, mark, again, after⟩ := second.header
  obtain rfl := Option.some.inj (between.symm.trans again)
  exact ⟨⟨decoded, mark, before, after⟩, second.read.trans first.read,
    second.checksum.trans first.checksum⟩

theorem Spared.extentRange_eq (spared : Spared region next offset) :
    extentRange next offset = extentRange region offset := by
  obtain ⟨decoded, mark, before, after⟩ := spared.header
  rw [extentRange_of_decodes before, extentRange_of_decodes after]
  rfl

/-- The magic of a spared extent is the one it had. -/
theorem Spared.decodes (spared : Spared region next offset)
    (header : ∃ decoded, region.readDecodedHeader offset = some decoded ∧ decoded.magic = extentMagic) :
    ∃ decoded, next.readDecodedHeader offset = some decoded ∧ decoded.magic = extentMagic := by
  obtain ⟨decoded, mark, before, after⟩ := spared.header
  obtain ⟨_, found, magic⟩ := header
  obtain rfl := Option.some.inj (before.symm.trans found)
  exact ⟨_, after, magic⟩

end Ranges

namespace Packed

variable {region next : LargeObjectRegion} {offset other : ℕ} {decoded : DecodedHeader}

theorem range_mem (member : offset ∈ region.allocated)
    (decodes : region.readDecodedHeader offset = some decoded) :
    (offset, decoded.totalLen) ∈ packedRanges region :=
  Multiset.mem_add.mpr (.inl (Multiset.mem_map.mpr ⟨offset, member, extentRange_of_decodes decodes⟩))

/-- The ranges, with the one of an allocated extent in front. -/
theorem packedRanges_eq (member : offset ∈ region.allocated) :
    packedRanges region = extentRange region offset ::ₘ
      ((region.allocated.erase offset).val.map (extentRange region) +
        (region.freeList : Multiset Range)) := by
  have values : region.allocated.val = offset ::ₘ (region.allocated.erase offset).val := by
    rw [Finset.erase_val, Multiset.cons_erase member]
  rw [packedRanges, values, Multiset.map_cons, Multiset.cons_add]

/-- The ranges of spared extents are those they had. -/
theorem map_extentRange {offsets : Multiset ℕ} (spared : ∀ other ∈ offsets, Spared region next other) :
    offsets.map (extentRange next) = offsets.map (extentRange region) :=
  Multiset.map_congr rfl fun other member => (spared other member).extentRange_eq

theorem packedRanges_of_spared (allocated : next.allocated = region.allocated)
    (freeList : next.freeList = region.freeList)
    (spared : ∀ other ∈ region.allocated, Spared region next other) :
    packedRanges next = packedRanges region := by
  rw [packedRanges, packedRanges, allocated, freeList, map_extentRange spared]

theorem nextOffset_release (region : LargeObjectRegion) (offset : ℕ) (decoded : DecodedHeader) :
    (region.release offset decoded).nextOffset = region.nextOffset := by
  simp only [LargeObjectRegion.release, LargeObjectRegion.zeroMagic]
  split <;> rfl

/-- The ranges, with the one of a new extent in front. -/
theorem packedRanges_insert (vacant : offset ∉ region.allocated)
    (allocated : next.allocated = insert offset region.allocated)
    (spared : ∀ other ∈ region.allocated, Spared region next other)
    (decodes : next.readDecodedHeader offset = some decoded) :
    packedRanges next = (offset, decoded.totalLen) ::ₘ
      (region.allocated.val.map (extentRange region) + (next.freeList : Multiset Range)) := by
  rw [packedRanges, allocated, Finset.insert_val_of_notMem vacant, Multiset.map_cons,
    map_extentRange spared, extentRange_of_decodes decodes, Multiset.cons_add]

variable (packed : Packed region)
include packed

section Member

variable (member : offset ∈ region.allocated)
include member

theorem apart (otherMember : other ∈ region.allocated) (differs : other ≠ offset) :
    Apart (extentRange region offset) (extentRange region other) := by
  have packs := packed.packs
  rw [packedRanges_eq member] at packs
  have among : extentRange region other ∈ (region.allocated.erase offset).val.map (extentRange region) :=
    Multiset.mem_map_of_mem _ (Finset.mem_erase.mpr ⟨differs, otherMember⟩)
  exact packs.apart (Multiset.mem_add.mpr (.inl among))

/-- An extent is spared by a change of bytes within the range of another one. -/
theorem spared (otherMember : other ∈ region.allocated) (differs : other ≠ offset)
    (size : next.size = region.size)
    (outside : ∀ query, ¬ Contains (extentRange region offset) query →
      next.buffer query = region.buffer query) : Spared region next other := by
  obtain ⟨decoded, decodes, _⟩ := packed.headers other otherMember
  refine spared_of_same decodes size fun query within => outside query fun hit => ?_
  exact packed.apart member otherMember differs query hit within

theorem spared_self : Spared region region offset := by
  obtain ⟨decoded, decodes, _⟩ := packed.headers offset member
  exact spared_of_same decodes rfl fun _ _ => rfl

end Member

theorem spaced : Spaced region := by
  intro left leftIn right rightIn differs
  obtain ⟨leftHeader, leftDecodes, _⟩ := packed.headers left leftIn
  obtain ⟨rightHeader, rightDecodes, _⟩ := packed.headers right rightIn
  have apart := packed.apart leftIn rightIn differs.symm
  rw [extentRange_of_decodes leftDecodes, extentRange_of_decodes rightDecodes] at apart
  obtain ⟨leftRoom, leftTotal⟩ := le_totalLen leftHeader
  obtain ⟨rightRoom, rightTotal⟩ := le_totalLen rightHeader
  have ordered := apart.before_or_behind (show 0 < leftHeader.totalLen by omega)
    (show 0 < rightHeader.totalLen by omega)
  simp only at ordered
  omega

/-- A call that allocates and releases nothing, and spares every extent. -/
theorem of_spared (frame : next = { region with buffer := next.buffer })
    (spared : ∀ other ∈ region.allocated, Spared region next other) : Packed next := by
  have allocated : next.allocated = region.allocated := by rw [frame]
  have freeList : next.freeList = region.freeList := by rw [frame]
  have upper : next.nextOffset = region.nextOffset := by rw [frame]
  have size : next.size = region.size := by rw [frame]
  have ranges := packedRanges_of_spared allocated freeList spared
  refine ⟨size ▸ packed.small, fun other member => ?_, ?_, ?_⟩
  · rw [allocated] at member
    exact (spared other member).decodes (packed.headers other member)
  · rw [ranges, upper]
    exact packed.packs
  · rw [upper, size]
    exact packed.fits

section Decoded

variable (member : offset ∈ region.allocated) (decodes : region.readDecodedHeader offset = some decoded)
include member decodes

/-- An allocated extent lies in the used part of the buffer. -/
theorem inside : offset + decoded.totalLen ≤ region.nextOffset := by
  obtain ⟨header, room⟩ := le_totalLen decoded
  exact packed.packs.bounds (range_mem member decodes) (show 0 < decoded.totalLen by omega)

theorem read_eq (magic : decoded.magic = extentMagic) : region.read offset =
    some (ByteMemory.read region.buffer (offset + decoded.headerSize) decoded.dataLen) := by
  have inside := packed.inside member decodes
  have fits := packed.fits
  have room := (le_totalLen decoded).2
  simp only [LargeObjectRegion.read, decodes, Option.bind_eq_bind, Option.bind_some]
  rw [if_neg (not_not_intro magic), if_neg (by omega)]

/-- The end of an extent spares the others. -/
private theorem spared_release : ∀ other ∈ region.allocated, other ≠ offset →
    Spared region (region.release offset decoded) other := by
  intro other otherMember differs
  refine packed.spared member otherMember differs (RegionState.size_release _ _ _) fun query missed => ?_
  have inside := packed.inside member decodes
  have room := le_totalLen decoded
  rw [extentRange_of_decodes decodes] at missed
  simp only [Contains] at missed
  simp only [LargeObjectRegion.release, LargeObjectRegion.zeroMagic]
  split
  · exact write_outside (by simp only [List.length_cons, List.length_nil]; omega)
  · rfl

/-- The range of the extent moves to the free list. -/
theorem packedRanges_release : packedRanges (region.release offset decoded) = packedRanges region := by
  have kept : (region.allocated.erase offset).val.map (extentRange (region.release offset decoded)) =
      (region.allocated.erase offset).val.map (extentRange region) := by
    refine map_extentRange fun other still => ?_
    obtain ⟨differs, otherMember⟩ := Finset.mem_erase.mp still
    exact packed.spared_release member decodes other otherMember differs
  rw [packedRanges_eq member, packedRanges, allocated_release, kept, RegionState.freeList_release,
    extentRange_of_decodes decodes, ← Multiset.add_cons, Multiset.cons_coe]
  exact congrArg _ (Multiset.coe_eq_coe.mpr List.perm_append_comm)

/-- The end of an allocated extent. -/
theorem release : Packed (region.release offset decoded) ∧
    ∀ other ∈ region.allocated, other ≠ offset → Spared region (region.release offset decoded) other := by
  have size := RegionState.size_release region offset decoded
  have spared := packed.spared_release member decodes
  have upper := nextOffset_release region offset decoded
  have allocated := allocated_release region offset decoded
  refine ⟨⟨size ▸ packed.small, fun other still => ?_, ?_, ?_⟩, spared⟩
  · rw [allocated] at still
    obtain ⟨differs, otherMember⟩ := Finset.mem_erase.mp still
    exact (spared other otherMember differs).decodes (packed.headers other otherMember)
  · rw [packed.packedRanges_release member decodes, upper]
    exact packed.packs
  · rw [upper, size]
    exact packed.fits

end Decoded

/-- No extent is allocated at the front of a range that is set aside. -/
theorem vacant {reserved upper : ℕ} {others : Multiset Range}
    (positive : 0 < reserved) (packs : Packs ((offset, reserved) ::ₘ
      (region.allocated.val.map (extentRange region) + others)) upper) : offset ∉ region.allocated := by
  intro member
  obtain ⟨decoded, decodes, _⟩ := packed.headers offset member
  have room := le_totalLen decoded
  have apart : Apart (offset, reserved) (extentRange region offset) :=
    packs.apart (Multiset.mem_add.mpr (.inl (Multiset.mem_map_of_mem _ member)))
  have own := apart offset
  rw [extentRange_of_decodes decodes] at own
  simp only [Contains] at own
  omega

/-- A new extent at the front of a range that was set aside; what it does not take of that range may be
free again. -/
theorem accept {reserved : ℕ} {others : Multiset Range}
    (allocated : next.allocated = insert offset region.allocated) (size : next.size = region.size)
    (fits : next.nextOffset ≤ next.size) (positive : 0 < reserved) (packs : Packs ((offset, reserved) ::ₘ
      (region.allocated.val.map (extentRange region) + others)) next.nextOffset)
    (decodes : next.readDecodedHeader offset = some decoded) (magic : decoded.magic = extentMagic)
    (covers : ∀ address, cover ((offset, decoded.totalLen) ::ₘ (next.freeList : Multiset Range)) address ≤
      cover ((offset, reserved) ::ₘ others) address)
    (outside : ∀ query, ¬ Contains (offset, reserved) query →
      next.buffer query = region.buffer query) :
    Packed next ∧ ∀ other ∈ region.allocated, Spared region next other := by
  have apart : ∀ other ∈ region.allocated, Apart (offset, reserved) (extentRange region other) :=
    fun other member => packs.apart (Multiset.mem_add.mpr (.inl (Multiset.mem_map_of_mem _ member)))
  have spared : ∀ other ∈ region.allocated, Spared region next other := by
    intro other member
    obtain ⟨decoded, decodes, _⟩ := packed.headers other member
    exact spared_of_same decodes size fun query within =>
      outside query fun hit => apart other member query hit within
  refine ⟨⟨size ▸ packed.small, fun other member => ?_, ?_, fits⟩, spared⟩
  · rw [allocated] at member
    rcases Finset.mem_insert.mp member with rfl | member
    · exact ⟨decoded, decodes, magic⟩
    · exact (spared other member).decodes (packed.headers other member)
  · refine packs.of_cover_le fun address => ?_
    have more := covers address
    rw [packedRanges_insert (packed.vacant positive packs) allocated spared decodes, ← Multiset.add_cons,
      ← Multiset.add_cons, cover_add, cover_add]
    omega

section Allocating

variable {data : Bytes} {checksum : ℕ}

omit packed in
/-- The header of a freshly written V2 extent. -/
theorem decodes_of_putExtent (buffer : next.buffer = (region.putExtent offset data checksum).buffer)
    (inside : offset + extentTotal data.length ≤ next.size) :
    next.readDecodedHeader offset = some ⟨extentMagic, data.length % 2 ^ 32, 0, true⟩ := by
  have cut : data.length % 2 ^ 32 ≤ data.length := Nat.mod_le _ _
  have length : (data.take (data.length % 2 ^ 32)).length = data.length % 2 ^ 32 := by
    rw [List.length_take, Nat.min_eq_left cut]
  have stored := stored_putExtent_cut region offset data checksum
  rw [← buffer] at stored
  rw [readDecodedHeader_of_stored stored (RegionState.sound_v2 (by omega))]
  · simp only [decoded, length]
    rfl
  · simp only [footprint, size, length]
    rw [extentTotal_eq] at inside ⊢
    omega

/-- A V2 extent at the front of a range that was set aside. -/
theorem putExtent {reserved : ℕ} {others : Multiset Range}
    (allocated : next.allocated = insert offset region.allocated) (size : next.size = region.size)
    (buffer : next.buffer = (region.putExtent offset data checksum).buffer)
    (fits : next.nextOffset ≤ next.size) (packs : Packs ((offset, reserved) ::ₘ
      (region.allocated.val.map (extentRange region) + others)) next.nextOffset)
    (large : extentTotal data.length ≤ reserved) (covers : ∀ address,
      cover ((offset, extentTotal data.length) ::ₘ (next.freeList : Multiset Range)) address ≤
        cover ((offset, reserved) ::ₘ others) address) :
    Packed next ∧ ∀ other ∈ region.allocated, Spared region next other := by
  have header := le_extentTotal data.length
  rw [headerSize] at header
  have inside : offset + reserved ≤ next.nextOffset :=
    packs.bounds (Multiset.mem_cons_self _ _) (show 0 < reserved by omega)
  have shorter : extentTotal (data.length % 2 ^ 32) ≤ extentTotal data.length := by
    have cut : data.length % 2 ^ 32 ≤ data.length := Nat.mod_le _ _
    rw [extentTotal_eq, extentTotal_eq]
    omega
  refine packed.accept allocated size fits (by omega) packs
    (decodes_of_putExtent buffer (by omega)) rfl ?_ ?_
  · exact fun address => (cover_cons_le _ _ shorter _).trans (covers address)
  · intro query missed
    rw [buffer]
    refine putExtent_outside region offset data checksum query fun hit => missed ?_
    simp only [Contains] at hit ⊢
    omega

/-- The bump pointer sets aside the range behind it. -/
theorem packs_bump (reserved : ℕ) :
    Packs ((region.nextOffset, reserved) ::ₘ (region.allocated.val.map (extentRange region) +
      (region.freeList : Multiset Range))) (region.nextOffset + reserved) :=
  packed.packs.push reserved

/-- The space taken for an extent is set aside from everything else, and no more of it is free than was. -/
theorem set_aside {needed : ℕ} (takes : Takes region next offset needed) :
    ∃ reserved others, needed ≤ reserved ∧
      Packs ((offset, reserved) ::ₘ (region.allocated.val.map (extentRange region) + others))
        next.nextOffset ∧
      ∀ address, cover ((offset, needed) ::ₘ (next.freeList : Multiset Range)) address ≤
        cover ((offset, reserved) ::ₘ others) address := by
  cases takes with
  | reuse length removed chosen large upper freeList =>
      have packs := packed.packs
      rw [packedRanges, Multiset.coe_eq_coe.mpr chosen, ← Multiset.cons_coe, Multiset.add_cons, ← upper]
        at packs
      refine ⟨length, removed, large, packs, fun address => ?_⟩
      rw [freeList]
      split
      · have same : cover ((offset, needed) ::ₘ _) address = _ := cover_middle large removed [] address
        rw [List.append_nil] at same
        exact same.le
      · exact cover_cons_le _ _ large _
  | bump place room upper freeList =>
      refine ⟨needed, region.freeList, le_rfl, ?_, fun address => ?_⟩
      · rw [upper, place]
        exact packed.packs_bump needed
      · rw [freeList]

theorem nextOffset_le_of_takes {needed : ℕ}
    (takes : Takes region next offset needed) : next.nextOffset ≤ region.size := by
  cases takes with
  | reuse length removed chosen large upper freeList => rw [upper]; exact packed.fits
  | bump place room upper freeList => rw [upper]; exact room

/-- A V2 extent that is written keeps the region packed and spares the others. -/
theorem puts (puts : Puts region next offset data checksum) :
    Packed next ∧ ∀ other ∈ region.allocated, Spared region next other := by
  obtain ⟨reserved, others, large, packs, covers⟩ := packed.set_aside puts.takes
  have fits : next.nextOffset ≤ next.size := puts.size ▸ packed.nextOffset_le_of_takes puts.takes
  exact packed.putExtent puts.allocated puts.size puts.buffer fits packs large covers

/-- A V2 extent lies in the buffer. -/
theorem inside_of_puts (puts : Puts region next offset data checksum) :
    offset + extentTotal data.length ≤ next.size := by
  obtain ⟨reserved, others, large, packs, _⟩ := packed.set_aside puts.takes
  have header := le_extentTotal data.length
  rw [headerSize] at header
  have below : offset + reserved ≤ next.nextOffset :=
    packs.bounds (Multiset.mem_cons_self _ _) (show 0 < reserved by omega)
  have fits := packed.nextOffset_le_of_takes puts.takes
  rw [puts.size]
  omega

theorem allocate (data : Bytes) :
    Packed (region.allocate data).1 ∧
      ∀ other ∈ region.allocated, Spared region (region.allocate data).1 other := by
  rcases called : region.allocate data with ⟨next, _ | offset⟩
  · obtain rfl := allocate_eq_none called
    exact ⟨packed, fun other member => packed.spared_self member⟩
  · exact packed.puts (allocate_puts called)

theorem writeExtentV2Checksummed (xxh64 : Xxh64) (data : Bytes) :
    Packed (region.writeExtentV2Checksummed xxh64 data).1 ∧ ∀ other ∈ region.allocated,
      Spared region (region.writeExtentV2Checksummed xxh64 data).1 other := by
  rcases called : region.writeExtentV2Checksummed xxh64 data with ⟨next, _ | offset⟩
  · obtain rfl := writeExtentV2Checksummed_eq_none called
    exact ⟨packed, fun other member => packed.spared_self member⟩
  · exact packed.puts (writeExtentV2Checksummed_puts called)

theorem writeExtentV1 (data : Bytes) :
    Packed (region.writeExtentV1 data).1 ∧
      ∀ other ∈ region.allocated, Spared region (region.writeExtentV1 data).1 other := by
  by_cases room : region.nextOffset + (24 + data.length) > region.size
  · simp only [LargeObjectRegion.writeExtentV1, if_pos room]
    exact ⟨packed, fun other member => packed.spared_self member⟩
  · have small := packed.small
    have outside := writeExtentV1_outside region data
    have stored := stored_writeExtentV1 (by omega) room
    simp only [LargeObjectRegion.writeExtentV1, if_neg room] at outside stored ⊢
    refine packed.accept rfl rfl (Nat.le_of_not_lt room) (by omega) (packed.packs_bump _)
      (readDecodedHeader_of_stored stored (RegionState.sound_v1 data)
        (Nat.le_of_not_lt room)) rfl (fun address => le_rfl) outside

end Allocating

/-- What `free` does to a packed region: it releases an allocated extent, and refuses anything else. -/
theorem releases_free (offset : ℕ) : Releases region (region.free offset).1 := by
  rw [LargeObjectRegion.free]
  by_cases member : offset ∈ region.allocated
  · obtain ⟨decoded, decodes, magic⟩ := packed.headers offset member
    simp only [if_neg (not_not_intro member), decodes, if_neg (not_not_intro magic)]
    exact .release member decodes (.nothing _)
  · rw [if_pos member]
    exact .nothing region

/-- Releases keep a region packed and spare what stays allocated. -/
theorem releases (releases : Releases region next) :
    Packed next ∧ ∀ other ∈ region.allocated, other ∈ next.allocated → Spared region next other := by
  induction releases with
  | nothing region => exact ⟨packed, fun other member _ => packed.spared_self member⟩
  | @release region next offset decoded member decodes rest ih =>
    obtain ⟨released, spared⟩ := packed.release member decodes
    obtain ⟨still, onward⟩ := ih released
    refine ⟨still, fun other otherMember kept => ?_⟩
    have between := rest.allocated_subset kept
    have differs := (Finset.mem_erase.mp (allocated_release region offset decoded ▸ between)).1
    exact (spared other otherMember differs).trans (onward other between kept)

theorem free (offset : ℕ) :
    Packed (region.free offset).1 ∧ ∀ other ∈ region.allocated,
      other ∈ (region.free offset).1.allocated → Spared region (region.free offset).1 other :=
  packed.releases (packed.releases_free offset)

theorem sweep (minActiveEpoch : BitVec 64) {order : List ℕ}
    (distinct : order.Nodup) (listed : ∀ offset ∈ order, offset ∈ region.allocated) :
    Packed (region.sweep minActiveEpoch order).1 ∧ ∀ other ∈ region.allocated,
      other ∈ (region.sweep minActiveEpoch order).1.allocated →
        Spared region (region.sweep minActiveEpoch order).1 other :=
  packed.releases (releases_sweep minActiveEpoch distinct listed)

end Packed

end Rdmas.Soundness
