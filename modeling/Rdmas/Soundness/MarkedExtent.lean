import Rdmas.Soundness.GcMarks

/-! # What a marked extent gives back

A mark of a V2 extent is to be invisible to readers and to the accounting, and whenever the extent is
freed or swept later on, its own footprint and nothing else goes back to the free list. The footprint is
computed from the header at that time, so the header has to survive whatever happens in between.
-/

namespace Rdmas.Soundness

open Rdmas.Model LittleEndian ByteMemory Tiling Runs

/-- A call with harmless marks only, after which the extent at the offset is still allocated. -/
def Retains (xxh64 : Xxh64) (offset : ℕ) (region : LargeObjectRegion) (op : RegionOp) : Prop :=
  HarmlessMark region op ∧ ∀ next, regionStep xxh64 region op = some next → offset ∈ next.allocated

/-- What a mark is to keep of an extent: its payload, its checksum, the count of used bytes and, after any
run that retains the extent, the range that goes to the free list with it. -/
structure KeepsExtent (xxh64 : Xxh64) (region : LargeObjectRegion) (offset : ℕ)
    (payload : Bytes) (epoch : BitVec 64) : Prop where
  read : (region.markForGc offset epoch).1.read offset = some payload
  checksum : (region.markForGc offset epoch).1.readChecksum offset = region.readChecksum offset
  usedBytes : (region.markForGc offset epoch).1.usedBytes = region.usedBytes
  freed : ∀ ops later, run (regionStep xxh64) (region.markForGc offset epoch).1 ops = some later →
    Throughout (regionStep xxh64) (Retains xxh64 offset) (region.markForGc offset epoch).1 ops →
    (later.free offset).2 = .ok () ∧
      (later.free offset).1.freeList = later.freeList ++ [(offset, extentTotal payload.length)]
  swept : ∀ ops later, run (regionStep xxh64) (region.markForGc offset epoch).1 ops = some later →
    Throughout (regionStep xxh64) (Retains xxh64 offset) (region.markForGc offset epoch).1 ops →
    ∀ (minActiveEpoch : BitVec 64) (order : List ℕ), order.Nodup → order.toFinset = later.allocated →
      offset ∉ (later.sweep minActiveEpoch order).1.allocated →
      ∃ added, (later.sweep minActiveEpoch order).1.freeList = later.freeList ++ added ∧
        added.filter (fun range => range.1 = offset) = [(offset, extentTotal payload.length)]

/-- A packed region with an allocated V2 extent of the given length. -/
structure HoldsExtent (region : LargeObjectRegion) (offset length : ℕ) : Prop where
  packed : Packed region
  member : offset ∈ region.allocated
  header : ∃ mark, region.readDecodedHeader offset = some ⟨extentMagic, length, mark, true⟩

section Sweeps

variable {region : LargeObjectRegion} {minActiveEpoch : BitVec 64} {order : List ℕ}

/-- A sweep returns to the free list the footprints of the extents it reclaims. -/
theorem freeList_sweep (region : LargeObjectRegion) (minActiveEpoch : BitVec 64) (order : List ℕ) :
    (region.sweep minActiveEpoch order).1.freeList = region.freeList ++
      (reclaimed region minActiveEpoch order).map fun extent => (extent.1, extent.2.totalLen) := by
  induction order generalizing region with
  | nil => exact (List.append_nil _).symm
  | cons visited order ih =>
    simp only [LargeObjectRegion.sweep, reclaimed]
    cases region.sweepable minActiveEpoch visited with
    | none => exact ih region
    | some decoded =>
      simp only [ih, RegionState.freeList_release, List.map_cons, List.append_assoc,
        List.singleton_append]

/-- No extent is reclaimed twice. -/
private theorem reclaimed_sublist (region : LargeObjectRegion) (minActiveEpoch : BitVec 64) (order : List ℕ) :
    ((reclaimed region minActiveEpoch order).map Prod.fst).Sublist order := by
  induction order generalizing region with
  | nil => exact List.Sublist.slnil
  | cons visited order ih =>
    simp only [reclaimed]
    cases region.sweepable minActiveEpoch visited with
    | none => exact (ih region).cons visited
    | some decoded => exact (ih _).cons_cons visited

/-- Among pairs of distinct keys only one has a given key. -/
private theorem filter_fst_eq_singleton {α β : Type*} [DecidableEq α] {pairs : List (α × β)} {key : α}
    {value : β} (distinct : (pairs.map Prod.fst).Nodup) (member : (key, value) ∈ pairs) :
    pairs.filter (fun pair => pair.1 = key) = [(key, value)] := by
  induction pairs with
  | nil => exact absurd member List.not_mem_nil
  | cons pair rest ih =>
    obtain ⟨fresh, distinct⟩ := List.nodup_cons.mp distinct
    rcases List.mem_cons.mp member with rfl | later
    · have others : rest.filter (fun pair => pair.1 = key) = [] := by
        refine List.filter_eq_nil_iff.mpr fun other otherMember same => fresh ?_
        exact List.mem_map.mpr ⟨other, otherMember, of_decide_eq_true same⟩
      rw [List.filter_cons_of_pos (by simp), others]
    · have differs : pair.1 ≠ key := fun same => fresh (List.mem_map.mpr ⟨_, later, same.symm⟩)
      rw [List.filter_cons_of_neg (by simpa using differs), ih distinct later]

end Sweeps

section Retained

variable {xxh64 : Xxh64} {region next : LargeObjectRegion} {op : RegionOp}
variable {offset length : ℕ} {epoch : BitVec 64}

/-- An extent that stays allocated keeps its format and its length. -/
theorem HoldsExtent.step (holds : HoldsExtent region offset length)
    (retains : Retains xxh64 offset region op) (taken : regionStep xxh64 region op = some next) :
    HoldsExtent next offset length := by
  obtain ⟨packed, spared⟩ := holds.packed.step retains.1 taken
  have member := retains.2 next taken
  obtain ⟨decoded, mark, before, after⟩ := (spared offset holds.member member).header
  obtain ⟨_, header⟩ := holds.header
  obtain rfl := Option.some.inj (before.symm.trans header)
  exact ⟨packed, member, mark, after⟩

theorem HoldsExtent.free (holds : HoldsExtent region offset length) :
    (region.free offset).2 = .ok () ∧
      (region.free offset).1.freeList = region.freeList ++ [(offset, extentTotal length)] := by
  obtain ⟨mark, header⟩ := holds.header
  have freed : region.free offset =
      (region.release offset ⟨extentMagic, length, mark, true⟩, .ok ()) := by
    simp only [LargeObjectRegion.free, header, if_neg (not_not_intro holds.member)]
    exact if_neg (not_not_intro rfl)
  rw [freed]
  exact ⟨rfl, RegionState.freeList_release _ _ _⟩

theorem HoldsExtent.sweep (holds : HoldsExtent region offset length) (minActiveEpoch : BitVec 64)
    {order : List ℕ} (distinct : order.Nodup) (enumerates : order.toFinset = region.allocated)
    (gone : offset ∉ (region.sweep minActiveEpoch order).1.allocated) :
    ∃ added, (region.sweep minActiveEpoch order).1.freeList = region.freeList ++ added ∧
      added.filter (fun range => range.1 = offset) = [(offset, extentTotal length)] := by
  refine ⟨_, freeList_sweep region minActiveEpoch order, filter_fst_eq_singleton ?_ ?_⟩
  · rw [List.map_map]
    exact distinct.sublist (reclaimed_sublist region minActiveEpoch order)
  · have among : offset ∈ (reclaimed region minActiveEpoch order).map Prod.fst := by
      rw [allocated_sweep, Finset.mem_sdiff, List.mem_toFinset] at gone
      exact not_not.mp fun spared => gone ⟨holds.member, spared⟩
    obtain ⟨⟨_, decoded⟩, member, rfl⟩ := List.mem_map.mp among
    have listed : ∀ other ∈ order, other ∈ region.allocated := fun other otherMember =>
      enumerates ▸ List.mem_toFinset.mpr otherMember
    have due := ((mem_reclaimed holds.packed.spaced distinct listed).mp member).2
    obtain ⟨mark, header⟩ := holds.header
    obtain rfl := Option.some.inj ((Option.filter_eq_some_iff.mp due).1.symm.trans header)
    exact List.mem_map.mpr ⟨_, member, rfl⟩

/-- Used bytes are counted by the lengths of the headers. -/
theorem usedBytes_of_spared (allocated : next.allocated = region.allocated)
    (spared : ∀ other ∈ region.allocated, Spared region next other) :
    next.usedBytes = region.usedBytes := by
  rw [LargeObjectRegion.usedBytes, LargeObjectRegion.usedBytes, allocated]
  refine Finset.sum_congr rfl fun other member => ?_
  obtain ⟨decoded, mark, before, after⟩ := (spared other member).header
  rw [before, after]
  rfl

end Retained

/-- In a packed region, a mark keeps a V2 extent and what it will give back exactly when the low half of the
epoch is not the magic. -/
theorem mark_keeps_extent_iff (xxh64 : Xxh64) (region : LargeObjectRegion)
    (packed : Packed region) (offset : ℕ) (member : offset ∈ region.allocated)
    (modern : ModernHeader region offset) (payload : Bytes) (reads : region.read offset = some payload)
    (epoch : BitVec 64) :
    KeepsExtent xxh64 region offset payload epoch ↔ epoch.toNat % 2 ^ 32 ≠ extentMagic := by
  have decodes := modern.decodes
  obtain ⟨decoded, found, magic, length⟩ := header_of_read reads
  obtain rfl := Option.some.inj (decodes.symm.trans found)
  have wrote : region.markForGc offset epoch = _ := markForGc_of_header found magic
  constructor
  · intro keeps mistaken
    have same := keeps.read
    rw [wrote, ← reads] at same
    exact read_marked_ne packed member found magic (fun fits => fits mistaken) same
  · intro unmistakable
    have spared := packed.spared_marked member found magic unmistakable
    have holds : HoldsExtent (region.markForGc offset epoch).1 offset payload.length := by
      rw [wrote]
      obtain ⟨_, mark, before, after⟩ := (spared offset member).header
      obtain rfl := Option.some.inj (before.symm.trans found)
      exact ⟨packed.of_spared rfl spared, member, mark, length ▸ after⟩
    constructor
    case read => rw [wrote, (spared offset member).read, reads]
    case checksum => rw [wrote, (spared offset member).checksum]
    case usedBytes =>
      rw [wrote]
      exact usedBytes_of_spared rfl spared
    case freed =>
      intro ops later reached retained
      exact (retained.invariant HoldsExtent.step holds reached).free
    case swept =>
      intro ops later reached retained minActiveEpoch order distinct enumerates gone
      exact (retained.invariant HoldsExtent.step holds reached).sweep minActiveEpoch distinct enumerates
        gone

/-- A V2 extent between a V1 extent and another V2 extent. -/
theorem mark_keeps_extent_of_run :
    ∃ region, run (regionStep fun _ _ => 0) (.new 256)
        [.writeExtentV1 [4], .allocate [1, 2, 3], .allocate [7]] = some region ∧
      KeepsExtent (fun _ _ => 0) region 25 [1, 2, 3] 5 := by
  have harmless : Throughout (regionStep fun _ _ => 0) HarmlessMark (.new 256)
      [.writeExtentV1 [4], .allocate [1, 2, 3], .allocate [7]] := by decide +kernel
  refine ⟨_, rfl, ?_⟩
  refine (mark_keeps_extent_iff (fun _ _ => 0) _ ?_ 25 ?_ ?_ [1, 2, 3] ?_ 5).mpr ?_
  · exact packed_of_run (by decide) harmless rfl
  · decide +kernel
  · exact ⟨by decide +kernel, by decide +kernel, by decide +kernel, by decide +kernel⟩
  · decide +kernel
  · decide

/-- An epoch whose low half is the magic turns the V2 header into a V1 header of more than five gigabytes,
all of which is added to the free list of a region of 128 bytes. -/
theorem mark_inflates_extent :
    let region := (RegionState.run (fun _ _ => 0) (.fresh 128) [.allocate [7]]).region
    let marked := (region.markForGc 0 (BitVec.ofNat 64 extentMagic)).1
    region.read 0 = some [7] ∧ marked.read 0 = none ∧ region.readChecksum 0 = some 0 ∧
      marked.readChecksum 0 = none ∧ region.usedBytes = 40 ∧ marked.usedBytes = 0x152444D68 ∧
      (marked.free 0).1.freeList = [(0, 0x152444D59)] := by
  intro region marked
  refine ⟨?_, ?_, ?_, ?_, ?_, ?_, ?_⟩
  · decide +kernel
  · decide +kernel
  · decide +kernel
  · decide +kernel
  · decide +kernel
  · decide +kernel
  · decide +kernel

end Rdmas.Soundness
