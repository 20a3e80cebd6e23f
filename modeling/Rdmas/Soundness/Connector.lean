import Rdmas.Soundness.ConnectorTrace
import Rdmas.Soundness.CuckooRuns
import Rdmas.Soundness.ExtentLedger

/-! # The store of the connector

The connector never frees an extent. Its references therefore never dangle, and every live Extent
entry reads as data that was submitted for its key. For the same reason an extent whose reference is
dropped, by a deletion, an overwrite, an eviction or a failed insert, is never reachable again.
-/

namespace Rdmas.Soundness

open Rdmas.Model LittleEndian Runs

/-- The extents a collection of entries refers to, with multiplicity. -/
def references (entries : Multiset Entry) : Multiset ℕ :=
  (entries.filter fun entry => entry.mode = .extent).map fun entry =>
    (HashBucket.extentRefOf entry.body).1.toNat

section References

private theorem references_add (left right : Multiset Entry) :
    references (left + right) = references left + references right := by
  rw [references, Multiset.filter_add, Multiset.map_add, references, references]

theorem references_extent (key : HashedKey) {offset : ℕ} (bound : offset < 2 ^ 64) (length : BitVec 64) :
    references {⟨key, extentBody (BitVec.ofNat 64 offset) length, .extent⟩} = {offset} := by
  simpa [references, Multiset.filter_singleton, extentRefOf_extentBody] using bound

private theorem references_inline (key : HashedKey) (body : Vector Byte 32) :
    references {⟨key, body, .inline⟩} = 0 := by
  simp [references, Multiset.filter_singleton]

private theorem references_eq_zero {entries : Multiset Entry} :
    references entries = 0 ↔ ∀ entry ∈ entries, entry.mode = .inline := by
  have modes : ∀ mode : BucketMode, ¬ mode = .extent ↔ mode = .inline := by
    intro mode
    cases mode <;> simp
  simp [references, Multiset.filter_eq_nil, modes]

end References

/-- The connector has never freed an extent, and each live Extent entry refers to an extent of its
own. -/
structure Tracked (store : Store) : Prop where
  placed : WellPlaced store.table
  unreleased : store.largeObjects.freeList = []
  below : ∀ offset ∈ store.largeObjects.allocated, offset < store.largeObjects.nextOffset
  bounded : store.largeObjects.size < 2 ^ 64
  referenced : references (liveEntries store.table) ≤ store.largeObjects.allocated.val

/-- The next extent fits behind the bump pointer. -/
def HasRoom (region : LargeObjectRegion) (data : Bytes) : Prop :=
  region.nextOffset + extentTotal data.length ≤ region.size

instance (region : LargeObjectRegion) (data : Bytes) : Decidable (HasRoom region data) :=
  inferInstanceAs (Decidable (_ ≤ _))

/-- The table entry of the next extent. -/
def nextEntry (region : LargeObjectRegion) (key : HashedKey) (data : Bytes) : Entry :=
  ⟨key, extentBody (BitVec.ofNat 64 region.nextOffset) (BitVec.ofNat 64 data.length), .extent⟩

/-- The operation drops no live Extent entry, and does not allocate for a key the table refuses. -/
def Tidy (store : Store) : StoreOp → Prop
  | .inline key data => key.hash ≠ 0 →
      ∀ lost ∈ displaced store.table ⟨key, CuckooTable.packBody data .inline, .inline⟩,
        lost.mode = .inline
  | .extent key data => HasRoom store.largeObjects data → key.hash ≠ 0 ∧
      ∀ lost ∈ displaced store.table (nextEntry store.largeObjects key data), lost.mode = .inline
  | .delete key => ∀ entry ∈ liveEntries store.table, entry.key = key → entry.mode = .inline

section Allocation

variable {region : LargeObjectRegion}

/-- Without released extents an allocation takes the range behind the bump pointer or fails. -/
theorem allocate_cases (unreleased : region.freeList = []) (data : Bytes) :
    (HasRoom region data ∧ ∃ next, region.allocate data = (next, some region.nextOffset) ∧
      next.freeList = [] ∧ next.allocated = insert region.nextOffset region.allocated ∧
      next.nextOffset = region.nextOffset + extentTotal data.length ∧ next.size = region.size) ∨
    (¬ HasRoom region data ∧ region.allocate data = (region, none)) := by
  simp only [LargeObjectRegion.allocate, unreleased, List.findIdx?_nil]
  split
  · next overflow => exact .inr ⟨Nat.not_le.mpr overflow, rfl⟩
  · next fits => exact .inl ⟨Nat.le_of_not_lt fits, _, rfl, rfl, rfl, rfl, rfl⟩

private theorem allocate_of_room (unreleased : region.freeList = []) {data : Bytes}
    (room : HasRoom region data) : ∃ next, region.allocate data = (next, some region.nextOffset) ∧
      next.allocated = insert region.nextOffset region.allocated := by
  rcases allocate_cases unreleased data with ⟨_, next, returned, _, allocated, _⟩ | ⟨full, _⟩
  · exact ⟨next, returned, allocated⟩
  · exact absurd room full

end Allocation

section Steps

variable {store : Store}

/-- An insertion trades the reference of its entry for those of the entry it displaces. -/
theorem references_insertRaw {table : CuckooTable} (placed : WellPlaced table) {entry : Entry}
    (nonzero : entry.key.hash ≠ 0) :
    references (liveEntries (table.insertRaw entry).1) +
        references ((displaced table entry).toList : Multiset Entry) =
      references (liveEntries table) + references {entry} := by
  rw [← references_add, ← references_add, (insertRaw_spec placed nonzero).2.1]

private theorem references_displaced {table : CuckooTable} {entry : Entry} :
    references ((displaced table entry).toList : Multiset Entry) = 0 ↔
      ∀ lost ∈ displaced table entry, lost.mode = .inline := by
  simp only [references_eq_zero, Multiset.mem_coe, Option.mem_toList, Option.mem_def]

theorem Tracked.vacant (tracked : Tracked store) :
    store.largeObjects.nextOffset ∉ store.largeObjects.allocated :=
  fun member => Nat.lt_irrefl _ (tracked.below _ member)

/-- What a store operation changes: some references are lost, some extents are added with theirs. -/
theorem Tracked.account (tracked : Tracked store) (op : StoreOp) :
    ∃ lost added, references (liveEntries (store.apply op).table) + lost =
        references (liveEntries store.table) + added ∧
      (store.apply op).largeObjects.allocated.val = store.largeObjects.allocated.val + added ∧
      (lost = 0 ↔ Tidy store op) := by
  cases op with
  | inline key data =>
    simp only [Store.apply, CuckooTable.insert]
    split
    · next zero =>
        exact ⟨0, 0, rfl, (add_zero _).symm, iff_of_true rfl fun nonzero => absurd zero nonzero⟩
    · next nonzero =>
        have trade := references_insertRaw tracked.placed
          (show (Entry.mk key (CuckooTable.packBody data .inline) .inline).key.hash ≠ 0 from nonzero)
        rw [references_inline] at trade
        exact ⟨_, 0, trade, (add_zero _).symm,
          references_displaced.trans ⟨fun kept _ => kept, fun tidy => tidy nonzero⟩⟩
  | extent key data =>
    rcases allocate_cases tracked.unreleased data with
      ⟨room, next, returned, _, allocated, _⟩ | ⟨full, returned⟩
    · have added : next.allocated.val =
          store.largeObjects.allocated.val + {store.largeObjects.nextOffset} := by
        rw [allocated, Finset.insert_val_of_notMem tracked.vacant, Multiset.add_comm,
          Multiset.singleton_add]
      simp only [Store.apply, returned, CuckooTable.insertExtent]
      split
      · next zero =>
          refine ⟨_, _, rfl, added, iff_of_false (Multiset.singleton_ne_zero _) ?_⟩
          exact fun tidy => (tidy room).1 zero
      · next nonzero =>
          have small : store.largeObjects.nextOffset < 2 ^ 64 :=
            (Nat.le_add_right _ _).trans_lt (room.trans_lt tracked.bounded)
          have trade := references_insertRaw tracked.placed
            (show (nextEntry store.largeObjects key data).key.hash ≠ 0 from nonzero)
          rw [nextEntry, references_extent key small] at trade
          exact ⟨_, _, trade, added, references_displaced.trans
            ⟨fun kept _ => ⟨nonzero, kept⟩, fun tidy => (tidy room).2⟩⟩
    · simp only [Store.apply, returned]
      exact ⟨0, 0, rfl, (add_zero _).symm, iff_of_true rfl fun fits => absurd fits full⟩
  | delete key =>
    refine ⟨references ((liveEntries store.table).filter fun entry => ¬ entry.key ≠ key), 0, ?_,
      (add_zero _).symm, ?_⟩
    · simp only [Store.apply]
      rw [liveEntries_delete tracked.placed, ← references_add, Multiset.filter_add_not, add_zero]
    · simp only [references_eq_zero, Multiset.mem_filter, not_not, and_imp, Tidy]

/-- A store operation keeps the table well placed. -/
theorem wellPlaced_apply (placed : WellPlaced store.table) (op : StoreOp) :
    WellPlaced (store.apply op).table := by
  cases op with
  | inline key data => exact TableOp.wellPlaced_apply placed (.insert key data .inline)
  | extent key data =>
    simp only [Store.apply]
    split
    · exact TableOp.wellPlaced_apply placed (.insertExtent key _ _)
    · exact placed
  | delete key => exact placed.delete key

/-- A store operation keeps the store tracked. -/
theorem Tracked.apply (tracked : Tracked store) (op : StoreOp) : Tracked (store.apply op) := by
  have placed := wellPlaced_apply tracked.placed op
  have referenced : references (liveEntries (store.apply op).table) ≤
      (store.apply op).largeObjects.allocated.val := by
    obtain ⟨lost, added, trade, grown, _⟩ := tracked.account op
    rw [grown]
    exact (Multiset.le_add_right _ lost).trans
      (trade.trans_le (add_le_add_left tracked.referenced added))
  cases op with
  | inline key data => exact ⟨placed, tracked.unreleased, tracked.below, tracked.bounded, referenced⟩
  | extent key data =>
    rcases allocate_cases tracked.unreleased data with
      ⟨_, next, returned, unreleased, allocated, moved, sized⟩ | ⟨_, returned⟩
    · simp only [Store.apply, returned] at placed referenced ⊢
      refine ⟨placed, unreleased, ?_, sized ▸ tracked.bounded, referenced⟩
      have positive := le_extentTotal data.length
      simp only [headerSize] at positive
      simp only [allocated, moved, Finset.mem_insert]
      rintro offset (rfl | member)
      · omega
      · have := tracked.below offset member
        omega
    · simp only [Store.apply, returned]
      exact tracked
  | delete key => exact ⟨placed, tracked.unreleased, tracked.below, tracked.bounded, referenced⟩

/-- Every extent is referred to by a live entry. -/
def Complete (store : Store) : Prop :=
  references (liveEntries store.table) = store.largeObjects.allocated.val

/-- A leak is for good: the extents are all referred to after an operation exactly if they were before
and the operation is tidy. -/
theorem Tracked.complete_apply (tracked : Tracked store) (op : StoreOp) :
    Complete (store.apply op) ↔ Complete store ∧ Tidy store op := by
  obtain ⟨lost, added, trade, grown, tidy⟩ := tracked.account op
  rw [Complete, Complete, grown, ← tidy]
  constructor
  · intro complete
    rw [complete, add_right_comm] at trade
    have balance : store.largeObjects.allocated.val + lost =
        references (liveEntries store.table) := add_right_cancel trade
    have nothing : lost = 0 := by
      have bound := tracked.referenced
      rw [← balance] at bound
      exact Multiset.le_zero.mp (by simpa using bound)
    rw [nothing, add_zero] at balance
    exact ⟨balance.symm, nothing⟩
  · rintro ⟨complete, rfl⟩
    rw [add_zero, complete] at trade
    exact trade

theorem Tracked.complete_run {final : Store} {ops : List StoreOp} (tracked : Tracked store)
    (reached : run Store.step store ops = some final) :
    Tracked final ∧ (Complete final ↔ Complete store ∧ Throughout Store.step Tidy store ops) := by
  induction ops generalizing store with
  | nil =>
    cases reached
    exact ⟨tracked, (and_iff_left trivial).symm⟩
  | cons op rest ih =>
    obtain ⟨next, taken, onward⟩ := run_cons_eq_some.mp reached
    cases taken
    obtain ⟨kept, later⟩ := ih (tracked.apply op) onward
    refine ⟨kept, later.trans ?_⟩
    rw [tracked.complete_apply op, and_assoc]
    refine and_congr_right fun _ => and_congr_right fun _ => ?_
    exact ⟨fun holds next taken => Option.some.inj taken ▸ holds, fun holds => holds _ rfl⟩

end Steps

private theorem mode_eq_extent {bucket : HashBucket} : bucket.mode = .extent ↔ bucket.isExtent = true := by
  unfold HashBucket.mode
  split <;> simp_all

section Contents

variable {store : Store} {origin : HashedKey → Bytes → Prop}

/-- A live extent of the ledger holds data of the entry's key. -/
structure Refers (origin : HashedKey → Bytes → Prop) (ledger : Ledger) (entry : Entry) (offset : ℕ)
    (payload : Bytes) : Prop where
  refers : HashBucket.extentRefOf entry.body =
    (BitVec.ofNat 64 offset, BitVec.ofNat 64 payload.length)
  recorded : ledger offset = some ⟨.v2, payload, 0, true⟩
  submitted : origin entry.key payload

/-- Every live Extent entry refers to an extent that holds data of its key. -/
structure Backed (origin : HashedKey → Bytes → Prop) (store : Store) (ledger : Ledger) : Prop where
  tracked : Tracked store
  accounted : RegionState.Accounted ⟨store.largeObjects, ledger⟩
  backed : ∀ entry ∈ liveEntries store.table, entry.mode = .extent →
    ∃ offset payload, Refers origin ledger entry offset payload

/-- Some ledger accounts for the store. -/
def Consistent (origin : HashedKey → Bytes → Prop) (store : Store) : Prop :=
  ∃ ledger, Backed origin store ledger

/-- Extents are only allocated for data of their key, shorter than 4 GiB. -/
def Licensed (origin : HashedKey → Bytes → Prop) : StoreOp → Prop
  | .extent key data => origin key data ∧ data.length < 2 ^ 32
  | _ => True

theorem Backed.step {ledger : Ledger} (backed : Backed origin store ledger) {op : StoreOp}
    (licensed : Licensed origin op) : Consistent origin (store.apply op) := by
  have tracked := backed.tracked.apply op
  cases op with
  | inline key data =>
    refine ⟨ledger, tracked, backed.accounted, ?_⟩
    intro entry member extent
    rcases TableOp.mem_liveEntries_apply backed.tracked.placed.two backed.tracked.placed.placed
        (.insert key data .inline) member with
      old | own
    · exact backed.backed entry old extent
    · cases own
      cases extent
  | extent key data =>
    obtain ⟨submitted, short⟩ := licensed
    have accounted := backed.accounted.allocate short
    rcases allocate_cases backed.tracked.unreleased data with
      ⟨_, next, returned, _⟩ | ⟨_, returned⟩
    · simp only [Store.apply, returned] at tracked accounted ⊢
      refine ⟨_, tracked, accounted, ?_⟩
      -- The new extent is nobody else's: its offset was not allocated.
      have others : ∀ entry ∈ liveEntries store.table, entry.mode = .extent →
          ∃ offset payload, Refers origin
            (RegionState.enter ledger (some store.largeObjects.nextOffset) ⟨.v2, data, 0, true⟩)
            entry offset payload := by
        intro entry member extent
        obtain ⟨offset, payload, held⟩ := backed.backed entry member extent
        have allocated := (backed.accounted.allocated offset).mpr ⟨_, held.recorded, rfl⟩
        have differs : offset ≠ store.largeObjects.nextOffset := fun same =>
          backed.tracked.vacant (same ▸ allocated)
        refine ⟨offset, payload, held.refers, ?_, held.submitted⟩
        rw [RegionState.enter, Function.update_of_ne differs, held.recorded]
      intro entry member extent
      rcases TableOp.mem_liveEntries_apply backed.tracked.placed.two backed.tracked.placed.placed
        (.insertExtent key _ _) member with
        old | own
      · exact others entry old extent
      · cases own
        exact ⟨_, data, extentRefOf_extentBody _ _, Function.update_self .., submitted⟩
    · simp only [Store.apply, returned]
      exact ⟨ledger, backed⟩
  | delete key =>
    refine ⟨ledger, tracked, backed.accounted, ?_⟩
    intro entry member extent
    rcases TableOp.mem_liveEntries_apply backed.tracked.placed.two backed.tracked.placed.placed
        (.delete key) member with old | own
    · exact backed.backed entry old extent
    · cases own

private theorem licensed_retryOps {xxh64 : Xxh64} {pairs : List (Bytes × Bytes)}
    (licensed : ∀ pair ∈ pairs, Licensed origin (.extent (hashLmcacheKey xxh64 pair.1) pair.2))
    (results : List Bool) : ∀ op ∈ ConnectorOp.retryOps xxh64 pairs results, Licensed origin op := by
  induction pairs generalizing results with
  | nil => simp [ConnectorOp.retryOps]
  | cons pair pairs ih =>
    obtain ⟨first, later⟩ := List.forall_mem_cons.mp licensed
    cases results with
    | nil => simp [ConnectorOp.retryOps]
    | cons ok results =>
      rw [ConnectorOp.retryOps]
      split
      · exact ih later results
      · exact List.forall_mem_cons.mpr ⟨first, ih later results⟩

/-- A batch allocates only for the pairs it was given. -/
theorem licensed_trace {xxh64 : Xxh64} {op : ConnectorOp}
    (licensed : ∀ pair ∈ op.pairs, Licensed origin (.extent (hashLmcacheKey xxh64 pair.1) pair.2))
    (connector : RdmaNativeConnector) : ∀ step ∈ op.trace xxh64 connector, Licensed origin step := by
  cases op with
  | batchSet keys mvs clock iterate =>
    simp only [ConnectorOp.trace]
    split
    · simp
    · refine List.forall_mem_append.mpr ⟨?_, ?_⟩
      · refine List.forall_mem_map.mpr fun pair member => ?_
        rw [ConnectorOp.pairOp]
        split
        · trivial
        · exact licensed pair member
      · split
        · refine List.forall_mem_append.mpr ⟨?_, licensed_retryOps licensed _⟩
          rw [ConnectorOp.evictOps]
          split
          · exact List.forall_mem_map.mpr fun _ _ => trivial
          · simp
        · simp
  | batchGet keys | batchExists keys => simp [ConnectorOp.trace]
  | batchDelete keys =>
    simp only [ConnectorOp.trace]
    split
    · simp
    · exact List.forall_mem_map.mpr fun _ _ => trivial

theorem Consistent.batch {xxh64 : Xxh64} {connector : RdmaNativeConnector}
    {op : ConnectorOp} (consistent : Consistent origin (storeOf connector))
    (licensed : ∀ pair ∈ op.pairs, Licensed origin (.extent (hashLmcacheKey xxh64 pair.1) pair.2)) :
    Consistent origin (storeOf (op.apply xxh64 connector)) := by
  have keep : ∀ {store op next}, Consistent origin store → Licensed origin op →
      Store.step store op = some next → Consistent origin next := by
    rintro store op next ⟨ledger, backed⟩ licensed taken
    exact Option.some.inj taken ▸ backed.step licensed
  exact (throughout_of_forall (licensed_trace licensed connector) _).invariant keep consistent
    (ConnectorOp.run_trace connector op)

/-- A live Extent bucket of a consistent store: its extent is allocated, has the stated length and
reads as data of the bucket's key. -/
theorem Consistent.read (consistent : Consistent origin store) {idx : ℕ}
    (bound : idx < store.table.bucketCount) (occupied : (store.table.bucket idx).isFree = false)
    (extent : (store.table.bucket idx).isExtent = true) :
    ∃ payload, origin (store.table.bucket idx).toEntry.key payload ∧
      (store.table.bucket idx).extentRef.1.toNat ∈ store.largeObjects.allocated ∧
      (store.table.bucket idx).extentRef.2.toNat = payload.length ∧
      store.largeObjects.read (store.table.bucket idx).extentRef.1.toNat = some payload := by
  obtain ⟨ledger, backed⟩ := consistent
  obtain ⟨offset, payload, held⟩ := backed.backed (store.table.bucket idx).toEntry
    (mem_liveEntries.mpr ⟨idx, bound, entryOf_eq_some.mpr ⟨occupied, rfl⟩⟩) (mode_eq_extent.mpr extent)
  have accounted := backed.accounted
  have inside : offset + extentTotal payload.length ≤ store.largeObjects.size :=
    (accounted.footprint_fits held.recorded).trans accounted.fits
  have sound := accounted.sound _ _ held.recorded
  have limit := backed.tracked.bounded
  have refers : (store.table.bucket idx).extentRef =
    (BitVec.ofNat 64 offset, BitVec.ofNat 64 payload.length) := held.refers
  have atOffset : (store.table.bucket idx).extentRef.1.toNat = offset := by
    rw [refers, BitVec.toNat_ofNat, Nat.mod_eq_of_lt (by omega)]
  have ofLength : (store.table.bucket idx).extentRef.2.toNat = payload.length := by
    have short : payload.length < 2 ^ 32 := sound.short rfl
    rw [refers, BitVec.toNat_ofNat, Nat.mod_eq_of_lt (by omega)]
  rw [atOffset]
  exact ⟨payload, held.submitted, (accounted.allocated offset).mpr ⟨_, held.recorded, rfl⟩, ofLength,
    ExtentRecord.read_of_live (accounted.stored _ _ held.recorded) sound rfl inside⟩

end Contents

/-- Every extent allocated by the connector is referred to by a live Extent bucket. -/
def NoLeak (connector : RdmaNativeConnector) : Prop :=
  ∀ offset ∈ connector.largeObjects.allocated, ∃ idx < connector.table.bucketCount,
    (connector.table.bucket idx).isFree = false ∧ (connector.table.bucket idx).isExtent = true ∧
      (connector.table.bucket idx).extentRef.1.toNat = offset

/-- Every store operation of a batch is tidy at its turn. -/
def TidyBatch (xxh64 : Xxh64) (connector : RdmaNativeConnector) (op : ConnectorOp) : Prop :=
  Throughout Store.step Tidy (storeOf connector) (op.trace xxh64 connector)

instance (store : Store) : (op : StoreOp) → Decidable (Tidy store op)
  | .inline _ _ => inferInstanceAs (Decidable (_ → _))
  | .extent _ _ => inferInstanceAs (Decidable (_ → _))
  | .delete _ => inferInstanceAs (Decidable (∀ _ ∈ _, _))

instance (xxh64 : Xxh64) (connector : RdmaNativeConnector)
    (op : ConnectorOp) : Decidable (TidyBatch xxh64 connector op) :=
  inferInstanceAs (Decidable (Throughout Store.step Tidy _ _))

section Leaks

variable {connector : RdmaNativeConnector}

private theorem mem_references {table : CuckooTable} {offset : ℕ} :
    offset ∈ references (liveEntries table) ↔ ∃ idx < table.bucketCount,
      (table.bucket idx).isFree = false ∧ (table.bucket idx).isExtent = true ∧
        (table.bucket idx).extentRef.1.toNat = offset := by
  simp only [references, Multiset.mem_map, Multiset.mem_filter, mem_liveEntries]
  constructor
  · rintro ⟨entry, ⟨⟨idx, bound, live⟩, extent⟩, refers⟩
    obtain ⟨occupied, rfl⟩ := entryOf_eq_some.mp live
    exact ⟨idx, bound, occupied, mode_eq_extent.mp extent, refers⟩
  · rintro ⟨idx, bound, occupied, extent, refers⟩
    have live := entryOf_eq_some.mpr ⟨occupied, rfl⟩
    exact ⟨_, ⟨⟨idx, bound, live⟩, mode_eq_extent.mpr extent⟩, refers⟩

private theorem noLeak_iff (tracked : Tracked (storeOf connector)) :
    NoLeak connector ↔ Complete (storeOf connector) := by
  simp only [NoLeak, ← mem_references]
  constructor
  · intro all
    exact le_antisymm tracked.referenced
      ((Multiset.le_iff_subset connector.largeObjects.allocated.nodup).mpr fun offset => all offset)
  · intro complete offset member
    change references (liveEntries connector.table) = connector.largeObjects.allocated.val at complete
    rw [complete]
    exact member

private theorem references_new (bucketCount maxKick : ℕ) (powerOfTwo : bucketCount.isPowerOfTwo) :
    references (liveEntries (.new bucketCount maxKick powerOfTwo)) = 0 := by
  rw [liveEntries_new]
  rfl

theorem tracked_create {bucketCount : ℕ} (maxKick regionSize watermark : ℕ)
    (powerOfTwo : bucketCount.isPowerOfTwo) (two : 2 ≤ bucketCount) (bounded : regionSize < 2 ^ 64) :
    Tracked (storeOf (.create bucketCount maxKick regionSize watermark powerOfTwo)) where
  placed := .new maxKick powerOfTwo two
  unreleased := rfl
  below _ member := absurd member (Finset.notMem_empty _)
  bounded := bounded
  referenced := (references_new bucketCount maxKick powerOfTwo).trans_le (Multiset.zero_le _)

/-- A set of one large value that finds room allocates it. -/
theorem storeOf_setLarge (xxh64 : Xxh64)
    (tracked : Tracked (storeOf connector)) (sound : connector.poisoned = false) (key : Bytes)
    {data : Bytes} (long : 32 < data.length) (room : HasRoom connector.largeObjects data)
    (clock : ℕ → ℕ) (iterate : AccessOrder) :
    let next := (connector.submitBatchSet xxh64 [key] [data] clock iterate).1
    storeOf next = (storeOf connector).apply (.extent (hashLmcacheKey xxh64 key) data) ∧
      next.poisoned = false := by
  have filled : data.isEmpty = false := by
    cases data with
    | nil => exact absurd long (by decide)
    | cons byte rest => rfl
  have unreleased : connector.largeObjects.freeList = [] := tracked.unreleased
  obtain ⟨region, returned, _⟩ := allocate_of_room unreleased room
  simp [RdmaNativeConnector.submitBatchSet, RdmaNativeConnector.setAll, RdmaNativeConnector.setOne,
    RdmaNativeConnector.insertLarge, RdmaNativeConnector.pushCompletion, Store.apply, storeOf, sound,
    filled, Nat.not_le.mpr long, returned]

/-- A key that is set to a large value and deleted leaves its extent behind, and no entry of its own. -/
theorem set_delete_leaves_extent (xxh64 : Xxh64)
    (tracked : Tracked (storeOf connector)) (sound : connector.poisoned = false) (key : Bytes)
    {data : Bytes} (long : 32 < data.length) (room : HasRoom connector.largeObjects data)
    (clock : ℕ → ℕ) (iterate : AccessOrder) :
    let final := ConnectorOp.apply xxh64
      (ConnectorOp.apply xxh64 connector (.batchSet [key] [data] clock iterate)) (.batchDelete [key])
    connector.largeObjects.nextOffset ∈ final.largeObjects.allocated ∧
      ∀ entry ∈ liveEntries final.table, entry ∈ liveEntries connector.table := by
  intro final
  obtain ⟨stored, unpoisoned⟩ := storeOf_setLarge xxh64 tracked sound key long room clock iterate
  have ends : storeOf final = ((storeOf connector).apply (.extent (hashLmcacheKey xxh64 key) data)).apply
      (.delete (hashLmcacheKey xxh64 key)) := by
    rw [← stored]
    simp only [final, ConnectorOp.apply, RdmaNativeConnector.submitBatchDelete, unpoisoned,
      Bool.false_eq_true, if_false]
    rfl
  obtain ⟨next, returned, allocated⟩ := allocate_of_room tracked.unreleased room
  have placed := (tracked.apply (.extent (hashLmcacheKey xxh64 key) data)).placed
  rw [show final.largeObjects = (storeOf final).largeObjects from rfl,
    show final.table = (storeOf final).table from rfl, ends]
  simp only [Store.apply, returned] at placed ⊢
  refine ⟨allocated ▸ Finset.mem_insert_self .., ?_⟩
  intro entry member
  rw [liveEntries_delete placed, Multiset.mem_filter] at member
  obtain ⟨live, differs⟩ := member
  rcases TableOp.mem_liveEntries_apply tracked.placed.two tracked.placed.placed
      (.insertExtent _ _ _) live with old | own
  · exact old
  · cases own
    exact absurd rfl differs

end Leaks

/-- For every connector over a fresh engine and every sequence of batches with data shorter than 4 GiB,
whatever fails or is evicted: a live Extent bucket refers to an allocated extent of the length it
states, and that extent holds data submitted for the one key the bucket is for. -/
theorem extent_holds_own_data (xxh64 : Xxh64) {bucketCount : ℕ}
    (maxKick regionSize watermark : ℕ) (powerOfTwo : bucketCount.isPowerOfTwo)
    (two : 2 ≤ bucketCount) (bounded : regionSize < 2 ^ 64) (ops : List ConnectorOp)
    (short : ∀ op ∈ ops, ∀ pair ∈ op.pairs, pair.2.length < 2 ^ 32)
    (distinct : ∀ left ∈ ops.flatMap ConnectorOp.keys, ∀ right ∈ ops.flatMap ConnectorOp.keys,
      hashLmcacheKey xxh64 left = hashLmcacheKey xxh64 right → left = right)
    {connector : RdmaNativeConnector} (reached : run (ConnectorOp.step xxh64)
      (.create bucketCount maxKick regionSize watermark powerOfTwo) ops = some connector) :
    ∀ idx < connector.table.bucketCount, (connector.table.bucket idx).isFree = false →
      (connector.table.bucket idx).isExtent = true →
      ∃ key payload, (key, payload) ∈ ops.flatMap ConnectorOp.pairs ∧
        (∀ other ∈ ops.flatMap ConnectorOp.keys,
          hashLmcacheKey xxh64 other = (connector.table.bucket idx).toEntry.key ↔ other = key) ∧
        (connector.table.bucket idx).extentRef.1.toNat ∈ connector.largeObjects.allocated ∧
        (connector.table.bucket idx).extentRef.2.toNat = payload.length ∧
        connector.largeObjects.read (connector.table.bucket idx).extentRef.1.toNat = some payload := by
  let origin : HashedKey → Bytes → Prop := fun hk payload =>
    ∃ key, hashLmcacheKey xxh64 key = hk ∧ (key, payload) ∈ ops.flatMap ConnectorOp.pairs
  have start : Consistent origin
      (storeOf (.create bucketCount maxKick regionSize watermark powerOfTwo)) := by
    refine ⟨fun _ => none, tracked_create maxKick regionSize watermark powerOfTwo two bounded,
      RegionState.accounted_fresh regionSize, ?_⟩
    intro entry member
    have nobody : entry ∈ (0 : Multiset Entry) := liveEntries_new bucketCount maxKick powerOfTwo ▸ member
    exact absurd nobody (Multiset.notMem_zero entry)
  have keep : ∀ {connector op next}, Consistent origin (storeOf connector) → op ∈ ops →
      ConnectorOp.step xxh64 connector op = some next → Consistent origin (storeOf next) := by
    intro connector op next consistent member taken
    cases taken
    refine consistent.batch fun pair given => ⟨⟨pair.1, rfl, ?_⟩, short op member pair given⟩
    exact List.mem_flatMap.mpr ⟨op, member, given⟩
  have given : ∀ connector, Throughout (ConnectorOp.step xxh64) (fun _ op => op ∈ ops) connector ops :=
    throughout_of_forall fun _ member => member
  have consistent := (given _).invariant keep start reached
  intro idx bound occupied extent
  obtain ⟨payload, ⟨key, hashed, submitted⟩, contents⟩ := consistent.read bound occupied extent
  refine ⟨key, payload, submitted, ?_, contents⟩
  intro other member
  have known : key ∈ ops.flatMap ConnectorOp.keys := by
    obtain ⟨op, among, given⟩ := List.mem_flatMap.mp submitted
    exact List.mem_flatMap.mpr ⟨op, among, ConnectorOp.mem_keys given⟩
  refine ⟨fun same => distinct other member key known (same.trans hashed.symm), ?_⟩
  rintro rfl
  exact hashed

/-- A key is overwritten: its bucket refers to the second extent, which holds what was submitted last. -/
theorem overwritten_key_holds_new_data : let xxh64 : Xxh64 := fun _ seed =>
      if seed = 0 then 0xD24EC4F1A98C6E5B else 0xDEC2BC81C3CD46C6
    let ops : List ConnectorOp := [.batchSet [[0x61]] [List.replicate 33 0x62] (fun _ => 0) id,
      .batchSet [[0x61]] [List.replicate 40 0x63] (fun _ => 0) id]
    ∃ connector, run (ConnectorOp.step xxh64) (.create 8 4 4096 1000 ⟨3, rfl⟩) ops = some connector ∧
      (connector.table.bucket 3).extentRef = (72, 40) ∧
      connector.largeObjects.read 72 = some (List.replicate 40 0x63) := by
  intro xxh64 ops
  have ends : (run (ConnectorOp.step xxh64) (.create 8 4 4096 1000 ⟨3, rfl⟩) ops).map
      (fun connector => (connector.table.bucketCount, (connector.table.bucket 3).isFree,
        (connector.table.bucket 3).isExtent, (connector.table.bucket 3).extentRef)) =
      some (8, false, true, 72, 40) := by decide +kernel
  obtain ⟨connector, reached, seen⟩ := Option.map_eq_some_iff.mp ends
  obtain ⟨count, occupied, extent, refers⟩ := by simpa only [Prod.mk.injEq] using seen
  obtain ⟨key, payload, submitted, _, _, length, holds⟩ := extent_holds_own_data xxh64 4 4096 1000
    ⟨3, rfl⟩ (by decide) (by decide) ops (by decide) (by decide) reached 3 (by omega) occupied extent
  rw [refers] at length holds
  have latest : payload = List.replicate 40 0x63 := by
    simp only [ops, ConnectorOp.pairs, List.flatMap_cons, List.flatMap_nil, List.zip_cons_cons,
      List.zip_nil_left, List.append_nil, List.mem_append, List.mem_singleton,
      Prod.mk.injEq] at submitted
    rcases submitted with ⟨_, rfl⟩ | ⟨_, rfl⟩
    · exact absurd length (by decide)
    · rfl
  exact ⟨connector, reached, refers, latest ▸ holds⟩

/-- For every connector over a fresh engine and every sequence of batches: no extent is leaked after any
batch exactly if no batch drops a live Extent entry or allocates for a key the table refuses. -/
theorem no_leak_iff_tidy (xxh64 : Xxh64) {bucketCount : ℕ}
    (maxKick regionSize watermark : ℕ) (powerOfTwo : bucketCount.isPowerOfTwo)
    (two : 2 ≤ bucketCount) (bounded : regionSize < 2 ^ 64) (ops : List ConnectorOp) :
    let start := RdmaNativeConnector.create bucketCount maxKick regionSize watermark powerOfTwo
    Throughout (ConnectorOp.step xxh64) (fun connector op => NoLeak (op.apply xxh64 connector)) start ops ↔
      Throughout (ConnectorOp.step xxh64) (TidyBatch xxh64) start ops := by
  intro start
  have tracked : Tracked (storeOf start) :=
    tracked_create maxKick regionSize watermark powerOfTwo two bounded
  have complete : Complete (storeOf start) := references_new bucketCount maxKick powerOfTwo
  have batch : ∀ {connector op}, Tracked (storeOf connector) ∧ Complete (storeOf connector) →
      Tracked (storeOf (op.apply xxh64 connector)) ∧
        (Complete (storeOf (op.apply xxh64 connector)) ↔ TidyBatch xxh64 connector op) := by
    rintro connector op ⟨tracked, complete⟩
    obtain ⟨kept, exactly⟩ := tracked.complete_run (ConnectorOp.run_trace connector op)
    exact ⟨kept, exactly.trans (and_iff_right complete)⟩
  have same : ∀ {connector op}, Tracked (storeOf connector) ∧ Complete (storeOf connector) →
      (NoLeak (op.apply xxh64 connector) ↔ TidyBatch xxh64 connector op) :=
    fun holds => (noLeak_iff (batch holds).1).trans (batch holds).2
  refine throughout_congr same ?_ ⟨tracked, complete⟩
  intro connector op next holds tidy taken
  cases taken
  exact ⟨(batch holds).1, (batch holds).2.mpr tidy⟩

/-- A key is set to an Inline value and deleted, then set to an extent and read: nothing leaks. -/
theorem tidy_run_leaks_nothing : let xxh64 : Xxh64 := fun _ seed =>
      if seed = 0 then 0xD24EC4F1A98C6E5B else 0xDEC2BC81C3CD46C6
    Throughout (ConnectorOp.step xxh64) (fun connector op => NoLeak (op.apply xxh64 connector))
      (.create 8 4 4096 1000 ⟨3, rfl⟩)
      [.batchSet [[0x61]] [[0x62]] (fun _ => 0) id, .batchDelete [[0x61]],
        .batchSet [[0x61]] [List.replicate 33 0x62] (fun _ => 0) id, .batchGet [[0x61]]] :=
  (no_leak_iff_tidy _ 4 4096 1000 ⟨3, rfl⟩ (by decide) (by decide) _).mpr (by decide +kernel)

/-- Setting a key to 33 bytes and deleting it, on a connector of the default sizes, leaves its extent
allocated and every bucket free. -/
theorem deleted_key_leaks_extent : let xxh64 : Xxh64 := fun _ seed =>
      if seed = 0 then 0xD24EC4F1A98C6E5B else 0xDEC2BC81C3CD46C6
    ∃ connector, run (ConnectorOp.step xxh64) (.new 16777216)
        [.batchSet [[0x61]] [List.replicate 33 0x62] (fun _ => 0) id, .batchDelete [[0x61]]] =
          some connector ∧
      0 ∈ connector.largeObjects.allocated ∧
      ∀ idx < connector.table.bucketCount, (connector.table.bucket idx).isFree = true := by
  intro xxh64
  have tracked : Tracked (storeOf (.new 16777216)) := tracked_create _ _ _ _ (by decide) (by decide)
  obtain ⟨allocated, entries⟩ := set_delete_leaves_extent xxh64 tracked rfl [0x61] (by decide)
    (show HasRoom _ (List.replicate 33 0x62) by decide) (fun _ => 0) id
  refine ⟨_, rfl, allocated, ?_⟩
  intro idx bound
  by_contra occupied
  have live := entries _ (mem_liveEntries.mpr
    ⟨idx, bound, entryOf_eq_some.mpr ⟨Bool.eq_false_iff.mpr occupied, rfl⟩⟩)
  exact absurd (liveEntries_new (2 ^ 20) 16 ⟨20, rfl⟩ ▸ live) (Multiset.notMem_zero _)

end Rdmas.Soundness
