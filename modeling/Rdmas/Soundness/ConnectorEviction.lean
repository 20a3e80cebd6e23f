import Rdmas.Soundness.ClientRead
import Rdmas.Soundness.Connector
import Rdmas.Soundness.LruHistory

/-! # What evictions take away

The tracker remembers hashes, and the table matches a hash together with a digest. An eviction deletes
the key whose digest is the hash alone, so it takes away exactly the live entries of such keys, while
every candidate is counted. That digest is the one `hash_lmcache_key` computes for keys whose second
hash is zero.
-/

namespace Rdmas.Soundness

open Rdmas.Model LittleEndian FixedBytes Runs RdmaNativeConnector

/-- The hashes `evict_if_needed` selects. -/
def evictionCandidates (connector : RdmaNativeConnector) (iterate : AccessOrder) : List (BitVec 64) :=
  if connector.lru.needsEviction then
    (connector.lru.selectEvictionCandidates iterate (max (connector.lru.keyCount / 10) 1)).2
  else []

/-- The keys that are live in the first table and not in the second. -/
def keysGone (before after : CuckooTable) : Multiset HashedKey :=
  ((liveEntries before).map Entry.key).filter fun key => key ∉ (liveEntries after).map Entry.key

/-- After an eviction no live bucket has a selected hash, and the counter has grown by the number of keys
that are gone. -/
structure ReallyEvicts (connector : RdmaNativeConnector) (iterate : AccessOrder) : Prop where
  cleared : ∀ idx < (connector.evictIfNeeded iterate).table.bucketCount,
    ((connector.evictIfNeeded iterate).table.bucket idx).isFree = false →
      ((connector.evictIfNeeded iterate).table.bucket idx).keyHash ∉ evictionCandidates connector iterate
  counted : (connector.evictIfNeeded iterate).lru.evicted = connector.lru.evicted +
    (keysGone connector.table (connector.evictIfNeeded iterate).table).card

/-- The key an eviction builds from the hash is stored, and is the only stored key of that hash. -/
def Evictable (table : CuckooTable) (keyHash : BitVec 64) : Prop :=
  evictionKey keyHash ∈ (liveEntries table).map Entry.key ∧
    ∀ entry ∈ liveEntries table, entry.key.hash = keyHash → entry.key = evictionKey keyHash

instance (table : CuckooTable) (keyHash : BitVec 64) : Decidable (Evictable table keyHash) :=
  inferInstanceAs (Decidable (_ ∧ ∀ entry ∈ _, _))

section Deletions

variable {table : CuckooTable}

private theorem liveEntries_deletes (valid : WellPlaced table) (keys : List HashedKey) :
    liveEntries (keys.foldl (fun table key => (table.delete key).1) table) =
      (liveEntries table).filter fun entry => entry.key ∉ keys := by
  induction keys generalizing table with
  | nil => simp
  | cons key keys ih =>
    rw [List.foldl_cons, ih (valid.delete key), liveEntries_delete valid, Multiset.filter_filter]
    refine Multiset.filter_congr fun entry _ => ?_
    rw [List.mem_cons, not_or, and_comm]

/-- Deleting keys takes away those of them that are live. -/
theorem keysGone_deletes (valid : WellPlaced table) (keys : List HashedKey) :
    keysGone table (keys.foldl (fun table key => (table.delete key).1) table) =
      ((liveEntries table).map Entry.key).filter fun key => key ∈ keys := by
  refine Multiset.filter_congr fun key member => ?_
  rw [liveEntries_deletes valid keys]
  simp only [Multiset.mem_map, Multiset.mem_filter]
  obtain ⟨entry, live, rfl⟩ := Multiset.mem_map.mp member
  constructor
  · intro gone
    by_contra kept
    exact gone ⟨entry, ⟨live, kept⟩, rfl⟩
  · rintro deleted ⟨other, ⟨_, kept⟩, same⟩
    exact kept (same ▸ deleted)

/-- As many keys are gone as were deleted exactly if all of them were live. -/
theorem card_filter_mem_eq {keys : Multiset HashedKey} {deleted : List HashedKey} (distinct : keys.Nodup)
    (once : deleted.Nodup) :
    (keys.filter fun key => key ∈ deleted).card = deleted.length ↔ ∀ key ∈ deleted, key ∈ keys := by
  have same : (keys.filter fun key => key ∈ deleted) =
      ((deleted.filter fun key => key ∈ keys : List HashedKey) : Multiset HashedKey) := by
    refine (Multiset.Nodup.ext (distinct.filter _) (Multiset.coe_nodup.mpr (once.filter _))).mpr ?_
    intro key
    simp [and_comm]
  rw [same, Multiset.coe_card, List.length_filter_eq_length_iff]
  simp

end Deletions

section Evictions

variable {connector : RdmaNativeConnector}
variable {iterate : AccessOrder}

private theorem evictOps_eq : ConnectorOp.evictOps connector iterate =
    ((evictionCandidates connector iterate).map evictionKey).map .delete := by
  rw [ConnectorOp.evictOps, evictionCandidates]
  split
  · rw [List.map_map]
    rfl
  · rfl

private theorem evictIfNeeded_table : (connector.evictIfNeeded iterate).table =
    ((evictionCandidates connector iterate).map evictionKey).foldl
      (fun table key => (table.delete key).1) connector.table := by
  have evicts := ConnectorOp.run_evictOps connector iterate
  rw [evictOps_eq, ConnectorOp.run_deletes] at evicts
  exact (congrArg Store.table (Option.some.inj evicts)).symm

private theorem evictIfNeeded_evicted : (connector.evictIfNeeded iterate).lru.evicted =
    connector.lru.evicted + (evictionCandidates connector iterate).length := by
  simp only [evictIfNeeded, evictionCandidates]
  cases connector.lru.needsEviction with
  | false => rfl
  | true =>
    simp only [Bool.not_true, Bool.false_eq_true, if_false, if_true]
    split
    · next nobody =>
        rw [List.isEmpty_iff.mp nobody]
        exact evicted_select _
    · exact congrArg (· + _) (evicted_select _)

private theorem distinctAccesses_evict (distinct : DistinctAccesses connector.lru) :
    DistinctAccesses (connector.evictIfNeeded iterate).lru := by
  simp only [evictIfNeeded]
  split
  · exact distinct
  · split
    · exact distinctAccesses_select distinct _
    · exact distinctAccesses_select distinct _

private theorem nodup_evictionKeys (distinct : DistinctAccesses connector.lru)
    (order : ∀ list, (iterate list).Perm list) :
    ((evictionCandidates connector iterate).map evictionKey).Nodup := by
  refine List.Nodup.map (fun left right same => congrArg HashedKey.hash same) ?_
  rw [evictionCandidates]
  split
  · exact nodup_select distinct order _
  · exact List.nodup_nil

/-- The live entries of selected hashes are those of the keys that were deleted. -/
theorem cleared_iff (valid : WellPlaced connector.table) :
    (∀ idx < (connector.evictIfNeeded iterate).table.bucketCount,
      ((connector.evictIfNeeded iterate).table.bucket idx).isFree = false →
        ((connector.evictIfNeeded iterate).table.bucket idx).keyHash ∉
          evictionCandidates connector iterate) ↔
      ∀ entry ∈ liveEntries connector.table, entry.key.hash ∈ evictionCandidates connector iterate →
        entry.key = evictionKey entry.key.hash := by
  have live := liveEntries_deletes valid ((evictionCandidates connector iterate).map evictionKey)
  rw [← evictIfNeeded_table] at live
  constructor
  · intro cleared entry member selected
    by_contra other
    have kept : entry ∈ liveEntries (connector.evictIfNeeded iterate).table := by
      rw [live, Multiset.mem_filter]
      refine ⟨member, fun deleted => other ?_⟩
      obtain ⟨keyHash, _, same⟩ := List.mem_map.mp deleted
      rw [← same]
      rfl
    obtain ⟨idx, bound, holds⟩ := mem_liveEntries.mp kept
    obtain ⟨occupied, rfl⟩ := entryOf_eq_some.mp holds
    exact cleared idx bound occupied selected
  · intro reconstructed idx bound occupied selected
    have kept := mem_liveEntries.mpr ⟨idx, bound, entryOf_eq_some.mpr ⟨occupied, rfl⟩⟩
    rw [live, Multiset.mem_filter] at kept
    exact kept.2 (List.mem_map.mpr ⟨_, selected, (reconstructed _ kept.1 selected).symm⟩)

/-- The counter is right exactly if every key that is deleted is live. -/
theorem counted_iff (valid : WellPlaced connector.table) (distinct : DistinctAccesses connector.lru)
    (order : ∀ list, (iterate list).Perm list) :
    (connector.evictIfNeeded iterate).lru.evicted = connector.lru.evicted +
        (keysGone connector.table (connector.evictIfNeeded iterate).table).card ↔
      ∀ keyHash ∈ evictionCandidates connector iterate,
        evictionKey keyHash ∈ (liveEntries connector.table).map Entry.key := by
  have counts := card_filter_mem_eq valid.distinct (nodup_evictionKeys distinct order)
  rw [List.length_map, List.forall_mem_map] at counts
  rw [evictIfNeeded_evicted, evictIfNeeded_table, keysGone_deletes valid, ← counts, add_right_inj]
  exact eq_comm

/-- An eviction really evicts exactly when every selected hash is evictable. -/
theorem reallyEvicts_iff (valid : WellPlaced connector.table)
    (distinct : DistinctAccesses connector.lru) (order : ∀ list, (iterate list).Perm list) :
    ReallyEvicts connector iterate ↔
      ∀ keyHash ∈ evictionCandidates connector iterate, Evictable connector.table keyHash := by
  constructor
  · rintro ⟨cleared, counted⟩ keyHash selected
    refine ⟨(counted_iff valid distinct order).mp counted keyHash selected, ?_⟩
    rintro entry member rfl
    exact (cleared_iff valid).mp cleared entry member selected
  · intro evictable
    refine ⟨(cleared_iff valid).mpr fun entry member selected => ?_,
      (counted_iff valid distinct order).mpr fun keyHash selected => (evictable keyHash selected).1⟩
    exact (evictable _ selected).2 entry member rfl

end Evictions

section Batches

variable {xxh64 : Xxh64} {connector : RdmaNativeConnector}

theorem lru_insertLarge (connector : RdmaNativeConnector) (hk : HashedKey) (data : Bytes) :
    (connector.insertLarge hk data).1.lru = connector.lru := by
  rw [insertLarge]
  split <;> rfl

/-- The first loop records one access a pair. -/
theorem lru_setOne (clock : ℕ → ℕ) (progress : SetProgress) (pair : Bytes × Bytes) :
    (setOne xxh64 clock progress pair).connector.lru =
      progress.connector.lru.recordAccess (hashLmcacheKey xxh64 pair.1).hash
        (clock progress.results.length) :=
  (setOne_part (fun _ _ _ => rfl) lru_insertLarge clock progress pair).1

/-- The first loop counts the accesses and leaves their merging to the selection. -/
theorem lru_setAll (pairs : List (Bytes × Bytes)) (clock : ℕ → ℕ) :
    let lru := (connector.setAll xxh64 pairs clock).connector.lru
    lru.lastAccess = connector.lru.lastAccess ∧ lru.keyCount = connector.lru.keyCount + pairs.length ∧
      lru.watermark = connector.lru.watermark := by
  have loop : ∀ progress : SetProgress,
      let lru := (pairs.foldl (setOne xxh64 clock) progress).connector.lru
      lru.lastAccess = progress.connector.lru.lastAccess ∧
        lru.keyCount = progress.connector.lru.keyCount + pairs.length ∧
        lru.watermark = progress.connector.lru.watermark := by
    induction pairs with
    | nil => exact fun _ => ⟨rfl, rfl, rfl⟩
    | cons pair pairs ih =>
      intro progress
      obtain ⟨merged, count, mark⟩ := ih (setOne xxh64 clock progress pair)
      rw [lru_setOne] at merged count mark
      refine ⟨merged, count.trans ?_, mark⟩
      simp only [LruTracker.recordAccess, List.length_cons]
      omega
  exact loop ⟨connector, [], false⟩

theorem lru_retryFailed (pairs : List (Bytes × Bytes)) (results : List Bool) :
    (connector.retryFailed xxh64 pairs results).1.lru = connector.lru :=
  (retryFailed_part lru_insertLarge connector pairs results).1

/-- A batch keeps one entry a key in the map of last accesses. -/
theorem distinctAccesses_apply (distinct : DistinctAccesses connector.lru) (op : ConnectorOp) :
    DistinctAccesses (op.apply xxh64 connector).lru := by
  cases op with
  | batchSet keys mvs clock iterate =>
    simp only [ConnectorOp.apply, submitBatchSet]
    split
    · exact distinct
    · have first : DistinctAccesses (setAll xxh64 connector.counted (keys.zip mvs) clock).connector.lru := by
        rw [DistinctAccesses, (lru_setAll _ _).1]
        exact distinct
      generalize setAll xxh64 _ _ _ = progress at first ⊢
      split
      · have retried : DistinctAccesses ((progress.connector.evictIfNeeded iterate).retryFailed xxh64
            (keys.zip mvs) progress.results).1.lru := by
          rw [lru_retryFailed]
          exact distinctAccesses_evict first
        split
        · exact retried
        · exact retried
      · exact first
  | batchGet keys | batchExists keys =>
    simp only [ConnectorOp.apply, submitBatchGet,
      submitBatchExists]
    split <;> exact distinct
  | batchDelete keys =>
    simp only [ConnectorOp.apply, submitBatchDelete]
    split <;> exact distinct

private theorem wellPlaced_run {store final : Store} {ops : List StoreOp} (placed : WellPlaced store.table)
    (reached : run Store.step store ops = some final) : WellPlaced final.table := by
  induction ops generalizing store with
  | nil => exact Option.some.inj reached ▸ placed
  | cons op rest ih =>
    obtain ⟨next, taken, onward⟩ := run_cons_eq_some.mp reached
    cases taken
    exact ih (wellPlaced_apply placed op) onward

end Batches

/-- For every connector over a fresh engine, every sequence of batches and every set that has performed
its first loop since: an eviction really evicts, whatever the iteration order of the access map, exactly
when every hash it selects is evictable. -/
theorem eviction_really_evicts_iff (xxh64 : Xxh64) {bucketCount : ℕ}
    (maxKick regionSize watermark : ℕ) (powerOfTwo : bucketCount.isPowerOfTwo)
    (two : 2 ≤ bucketCount) (ops : List ConnectorOp) {connector : RdmaNativeConnector}
    (reached : run (ConnectorOp.step xxh64)
      (.create bucketCount maxKick regionSize watermark powerOfTwo) ops = some connector)
    (pairs : List (Bytes × Bytes)) (clock : ℕ → ℕ) (iterate : AccessOrder)
    (order : ∀ list, (iterate list).Perm list) :
    let filled := (connector.setAll xxh64 pairs clock).connector
    ReallyEvicts filled iterate ↔
      ∀ keyHash ∈ evictionCandidates filled iterate, Evictable filled.table keyHash := by
  intro filled
  have keep : ∀ {connector op next},
      WellPlaced (storeOf connector).table ∧ DistinctAccesses connector.lru →
      ConnectorOp.step xxh64 connector op = some next →
      WellPlaced (storeOf next).table ∧ DistinctAccesses next.lru := by
    rintro connector op next ⟨placed, distinct⟩ taken
    cases taken
    exact ⟨wellPlaced_run placed (ConnectorOp.run_trace connector op),
      distinctAccesses_apply distinct op⟩
  have fresh : WellPlaced (storeOf (.create bucketCount maxKick regionSize watermark powerOfTwo)).table :=
    .new maxKick powerOfTwo two
  obtain ⟨placed, distinct⟩ := run_invariant keep ⟨fresh, List.nodup_nil⟩ reached
  have first : run Store.step (storeOf connector) (pairs.map (ConnectorOp.pairOp xxh64)) =
      some (storeOf filled) := ConnectorOp.run_firstLoop clock pairs ⟨connector, [], false⟩
  refine reallyEvicts_iff (wellPlaced_run placed first) ?_ order
  rw [DistinctAccesses, (lru_setAll _ _).1]
  exact distinct

/-- A key whose second hash is zero is the key that an eviction builds from its hash. -/
theorem eviction_of_zero_second_hash : let xxh64 : Xxh64 := fun _ seed =>
      if seed = 0 then 0xD24EC4F1A98C6E5B else 0
    let filled := ((create 8 4 64 0 ⟨3, rfl⟩).setAll xxh64 [([0x61], [0x62])]
      fun _ => 0).connector
    evictionCandidates filled id = [0xD24EC4F1A98C6E5B] ∧ ReallyEvicts filled id := by
  intro xxh64 filled
  have selected : evictionCandidates filled id = [0xD24EC4F1A98C6E5B] := by decide +kernel
  have evictable : Evictable filled.table 0xD24EC4F1A98C6E5B := by decide +kernel
  have evicts : ReallyEvicts filled id ↔
      ∀ keyHash ∈ evictionCandidates filled id, Evictable filled.table keyHash :=
    @eviction_really_evicts_iff xxh64 8 4 64 0 ⟨3, rfl⟩ (by decide) [] _ rfl [([0x61], [0x62])]
      (fun _ => 0) id fun _ => .refl _
  refine ⟨selected, evicts.mpr ?_⟩
  rw [selected]
  exact List.forall_mem_singleton.mpr evictable

section Repeated

variable {xxh64 : Xxh64} {keyHash : BitVec 64} {entry : Entry}

/-- Any number of accesses to one key at one time leaves one entry in the map. -/
theorem merged_replicate (count now : ℕ) :
    (List.replicate (count + 1) (keyHash, now)).foldl LruTracker.insertAccess [] =
      [(keyHash, now)] := by
  have again : LruTracker.insertAccess [(keyHash, now)] (keyHash, now) = [(keyHash, now)] := by
    simp [LruTracker.insertAccess]
  have more : (List.replicate count (keyHash, now)).foldl LruTracker.insertAccess [(keyHash, now)] =
      [(keyHash, now)] := by
    induction count with
    | zero => rfl
    | succ count ih => rw [List.replicate_succ, List.foldl_cons, again, ih]
  exact more

/-- Storing an entry that is the only one leaves it the only one. -/
theorem liveEntries_insertRaw_again {table : CuckooTable} (valid : WellPlaced table)
    (nonzero : entry.key.hash ≠ 0) (only : liveEntries table = {entry}) :
    liveEntries (table.insertRaw entry).1 = {entry} := by
  rcases (insertRaw_spec valid nonzero).2.2 with ⟨_, live⟩ | ⟨_, absent, _⟩
  · rw [live, only]
    simp [Multiset.filter_singleton]
  · exact absurd rfl (absent entry (only ▸ Multiset.mem_singleton_self entry))

/-- In an empty table it becomes the only one. -/
theorem liveEntries_insertRaw_new {bucketCount : ℕ} (maxKick : ℕ)
    (powerOfTwo : bucketCount.isPowerOfTwo) (two : 2 ≤ bucketCount) (nonzero : entry.key.hash ≠ 0) :
    liveEntries ((CuckooTable.new bucketCount maxKick powerOfTwo).insertRaw entry).1 = {entry} := by
  have nobody := liveEntries_new bucketCount maxKick powerOfTwo
  have missing := findKeyIdx_of_absent two nonzero fun other member =>
    absurd (nobody ▸ member) (Multiset.notMem_zero other)
  have free : ((CuckooTable.new bucketCount maxKick powerOfTwo).bucket
      ((CuckooTable.new bucketCount maxKick powerOfTwo).h1 entry.key.hash)).isFree = true := by
    rw [bucket_new]
    decide
  rw [insertRaw_first missing free, liveEntries_writeSlot_free (CuckooTable.h1_lt _ _) nonzero free,
    nobody, zero_add]

/-- The connector after a number of sets of one key to one Inline value. -/
structure OnlyHolds (entry : Entry) (count : ℕ) (connector : RdmaNativeConnector) : Prop where
  placed : WellPlaced (storeOf connector).table
  live : liveEntries (storeOf connector).table = {entry}
  region : (storeOf connector).largeObjects = .new 10
  lru : connector.lru = ⟨List.replicate count (entry.key.hash, 0), [], count, 1000, 0⟩

section Inline

variable {key data : Bytes}
variable (stored : entry = ⟨hashLmcacheKey xxh64 key, CuckooTable.packBody data .inline, .inline⟩)
variable (nonzero : entry.key.hash ≠ 0) (short : data.length ≤ 32)
include stored nonzero short

/-- A set of an Inline value stores its entry. -/
theorem storeOf_setOne_inline (progress : SetProgress) :
    storeOf (setOne xxh64 (fun _ => 0) progress (key, data)).connector =
      ⟨(progress.connector.table.insertRaw entry).1, progress.connector.largeObjects⟩ := by
  subst stored
  rw [ConnectorOp.storeOf_setOne]
  simp only [ConnectorOp.pairOp, if_pos short, Store.apply, CuckooTable.insert, if_neg nonzero]
  rfl

/-- The first set of the key. -/
theorem OnlyHolds.first : OnlyHolds entry 1
    (setOne xxh64 (fun _ => 0) ⟨.new 1, [], false⟩ (key, data)).connector := by
  have powerOfTwo : Nat.isPowerOfTwo (2 ^ 20) := ⟨20, rfl⟩
  have two : 2 ≤ 2 ^ 20 := by norm_num
  have store := storeOf_setOne_inline stored nonzero short ⟨.new 1, [], false⟩
  refine ⟨?_, ?_, congrArg Store.largeObjects store, ?_⟩
  · rw [store]
    exact (insertRaw_spec (.new 16 powerOfTwo two) nonzero).1
  · rw [store]
    exact liveEntries_insertRaw_new 16 powerOfTwo two nonzero
  · rw [lru_setOne, stored]
    rfl

/-- One more set of the key. -/
theorem OnlyHolds.setOne {count : ℕ} {progress : SetProgress}
    (holds : OnlyHolds entry count progress.connector) :
    OnlyHolds entry (count + 1) (setOne xxh64 (fun _ => 0) progress (key, data)).connector := by
  have store := storeOf_setOne_inline stored nonzero short progress
  refine ⟨?_, ?_, (congrArg Store.largeObjects store).trans holds.region, ?_⟩
  · rw [store]
    exact (insertRaw_spec holds.placed nonzero).1
  · rw [store]
    exact liveEntries_insertRaw_again holds.placed nonzero holds.live
  · rw [lru_setOne, holds.lru, stored]
    simp only [LruTracker.recordAccess, ← List.replicate_succ']

/-- Any number of sets of the key. -/
theorem OnlyHolds.setMany {count : ℕ} (more : ℕ) {progress : SetProgress}
    (holds : OnlyHolds entry count progress.connector) :
    OnlyHolds entry (count + more) ((List.replicate more (key, data)).foldl
      (RdmaNativeConnector.setOne xxh64 fun _ => 0) progress).connector := by
  induction more generalizing count progress with
  | zero => exact holds
  | succ more ih =>
    rw [List.replicate_succ, List.foldl_cons, add_comm more 1, ← add_assoc]
    exact ih (holds.setOne stored nonzero short)

end Inline

/-- A value that has no room calls for an eviction. -/
theorem evictionNeeded_of_refused {clock : ℕ → ℕ} {key data : Bytes}
    {progress : SetProgress} (long : 32 < data.length)
    (refused : progress.connector.largeObjects.allocate data =
      (progress.connector.largeObjects, none)) :
    (setOne xxh64 clock progress (key, data)).evictionNeeded = true := by
  have nonempty : data.isEmpty = false := by
    cases data with
    | nil => exact absurd long (Nat.not_lt_zero _)
    | cons byte data => rfl
  simp [setOne, nonempty, Nat.not_le.mpr long, insertLarge,
    refused]

/-- A value that has no room leaves the stored entry and calls for an eviction. -/
theorem OnlyHolds.refuse {count : ℕ} {key data : Bytes} {progress : SetProgress}
    (same : entry.key = hashLmcacheKey xxh64 key) (long : 32 < data.length)
    (holds : OnlyHolds entry count progress.connector) :
    (RdmaNativeConnector.setOne xxh64 (fun _ => 0) progress (key, data)).evictionNeeded = true ∧
      OnlyHolds entry (count + 1)
        (RdmaNativeConnector.setOne xxh64 (fun _ => 0) progress (key, data)).connector := by
  have full : (LargeObjectRegion.new 10).allocate data = (.new 10, none) := by
    have exceeds : (LargeObjectRegion.new 10).nextOffset + extentTotal data.length >
        (LargeObjectRegion.new 10).size := by
      rw [extentTotal_eq]
      change 0 + _ > 10
      omega
    simp only [LargeObjectRegion.allocate]
    rw [if_pos exceeds]
    rfl
  have refused : (storeOf progress.connector).largeObjects.allocate data =
      ((storeOf progress.connector).largeObjects, none) := by
    rw [holds.region, full]
  have store : storeOf (RdmaNativeConnector.setOne xxh64 (fun _ => 0) progress (key, data)).connector =
      storeOf progress.connector := by
    rw [ConnectorOp.storeOf_setOne]
    simp only [ConnectorOp.pairOp, if_neg (Nat.not_le.mpr long), Store.apply, refused]
  refine ⟨?_, store ▸ holds.placed, store ▸ holds.live, store ▸ holds.region, ?_⟩
  · exact evictionNeeded_of_refused long refused
  · rw [lru_setOne, holds.lru, same]
    simp only [LruTracker.recordAccess, ← List.replicate_succ']

/-- The first loop over one key: sets of an Inline value, and one of a value that has no room. -/
theorem onlyHolds_setAll {count : ℕ} (some : 0 < count) {key data large : Bytes}
    (stored : entry = ⟨hashLmcacheKey xxh64 key, CuckooTable.packBody data .inline, .inline⟩)
    (nonzero : entry.key.hash ≠ 0) (short : data.length ≤ 32) (long : 32 < large.length) :
    let first := (new 1).setAll xxh64
      (List.replicate count (key, data) ++ [(key, large)]) fun _ => 0
    first.evictionNeeded = true ∧ OnlyHolds entry (count + 1) first.connector := by
  obtain ⟨more, rfl⟩ := Nat.exists_eq_add_of_lt some
  rw [zero_add]
  have many := (OnlyHolds.first stored nonzero short).setMany stored nonzero short more
  have refused := many.refuse (congrArg Entry.key stored) long
  simp only [setAll, List.foldl_append, List.replicate_succ, List.foldl_cons,
    List.foldl_nil]
  rw [add_comm 1 more] at refused
  exact refused

/-- Once the watermark is passed, the one hash is selected. -/
theorem OnlyHolds.selected {count : ℕ} {connector : RdmaNativeConnector}
    (holds : OnlyHolds entry (count + 1) connector) (passed : 1000 ≤ count) :
    evictionCandidates connector id = [entry.key.hash] := by
  have needed : connector.lru.needsEviction = true := by
    rw [holds.lru]
    exact decide_eq_true (Nat.lt_succ_of_le passed)
  rw [evictionCandidates, if_pos needed, holds.lru]
  simp only [LruTracker.selectEvictionCandidates, merged_replicate]
  have several : ∃ n, max ((count + 1) / 10) 1 = n + 1 := ⟨max ((count + 1) / 10) 1 - 1, by omega⟩
  obtain ⟨n, several⟩ := several
  rw [several]
  simp

/-- If the eviction builds another key from that hash, the entry survives and is counted. -/
theorem OnlyHolds.survives {count : ℕ} {connector : RdmaNativeConnector}
    (holds : OnlyHolds entry (count + 1) connector) (passed : 1000 ≤ count)
    (other : entry.key ≠ evictionKey entry.key.hash) :
    (connector.evictIfNeeded id).lru.evicted = 1 ∧
      keysGone connector.table (connector.evictIfNeeded id).table = 0 ∧
      entry ∈ liveEntries (connector.evictIfNeeded id).table := by
  have placed : WellPlaced connector.table := holds.placed
  have live : liveEntries connector.table = {entry} := holds.live
  rw [evictIfNeeded_evicted, evictIfNeeded_table, keysGone_deletes placed, liveEntries_deletes placed,
    live, holds.selected passed, holds.lru]
  refine ⟨rfl, ?_, ?_⟩
  · rw [Multiset.map_singleton, Multiset.filter_singleton, if_neg (by simpa using other)]
    rfl
  · exact Multiset.mem_filter.mpr ⟨Multiset.mem_singleton_self entry, by simpa using other⟩

/-- More sets of a key than the watermark, and then one of a value that has no room: the eviction selects
the key's hash and counts it, and the entry survives if the eviction builds another key from the hash. -/
theorem selected_entry_survives {count : ℕ} (passed : 1000 ≤ count) {key data large : Bytes}
    (stored : entry = ⟨hashLmcacheKey xxh64 key, CuckooTable.packBody data .inline, .inline⟩)
    (hash : entry.key.hash = keyHash) (nonzero : keyHash ≠ 0) (other : entry.key ≠ evictionKey keyHash)
    (short : data.length ≤ 32) (long : 32 < large.length) :
    let first := (new 1).setAll xxh64
      (List.replicate count (key, data) ++ [(key, large)]) fun _ => 0
    let evicted := first.connector.evictIfNeeded id
    first.evictionNeeded = true ∧
      evictionCandidates first.connector id = [keyHash] ∧ evicted.lru.evicted = 1 ∧
      keysGone first.connector.table evicted.table = 0 ∧
      ∃ entry ∈ liveEntries evicted.table, entry.key.hash = keyHash := by
  subst hash
  obtain ⟨needed, holds⟩ := onlyHolds_setAll (show 0 < count by omega) stored nonzero short long
  obtain ⟨counted, kept, lives⟩ := holds.survives passed other
  exact ⟨needed, holds.selected passed, counted, kept, entry, lives, rfl⟩

end Repeated

/-- On a connector of the least default sizes, one key is set a thousand and one times to one byte, and then
to a value that has no room in the region. The eviction selects the key and counts it, and the key is
still there. -/
theorem eviction_leaves_selected_key : let xxh64 : Xxh64 := fun _ seed =>
      if seed = 0 then 0xD24EC4F1A98C6E5B else 0xDEC2BC81C3CD46C6
    let small : Bytes × Bytes := ([0x61], [0x62])
    let large : Bytes × Bytes := ([0x61], List.replicate 33 0x63)
    let first := (new 1).setAll xxh64 (List.replicate 1001 small ++ [large])
      fun _ => 0
    let evicted := first.connector.evictIfNeeded id
    first.evictionNeeded = true ∧
      evictionCandidates first.connector id = [0xD24EC4F1A98C6E5B] ∧ evicted.lru.evicted = 1 ∧
      keysGone first.connector.table evicted.table = 0 ∧
      ∃ entry ∈ liveEntries evicted.table, entry.key.hash = 0xD24EC4F1A98C6E5B := by
  intro xxh64
  obtain ⟨entry, stored⟩ : ∃ entry : Entry,
      entry = ⟨hashLmcacheKey xxh64 [0x61], CuckooTable.packBody [0x62] .inline, .inline⟩ := ⟨_, rfl⟩
  have hash : entry.key.hash = 0xD24EC4F1A98C6E5B := by
    rw [stored]
    rfl
  have other : entry.key ≠ evictionKey 0xD24EC4F1A98C6E5B := by
    rw [stored]
    decide +kernel
  exact selected_entry_survives (by decide) stored hash (by decide) other (by decide) (by decide)

end Rdmas.Soundness
