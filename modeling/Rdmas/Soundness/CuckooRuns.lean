import Rdmas.Soundness.CuckooEntries

/-! # Runs of the cuckoo table

A run is any sequence of insertions and deletions on a fresh table. Placement and distinct keys hold
after every run, failing insertions included. When no insertion fails, lookups are those of the
finite map that the same sequence updates.
-/

namespace Rdmas.Soundness

open Rdmas.Model LittleEndian FixedBytes Function

inductive TableOp where
  | insert (key : HashedKey) (value : Bytes) (mode : BucketMode)
  | insertExtent (key : HashedKey) (offset length : BitVec 64)
  | delete (key : HashedKey)
deriving DecidableEq, Repr

inductive TableOutcome where
  | inserted (result : Except CuckooError Unit)
  | deleted (found : Bool)
deriving DecidableEq, Repr

def TableOp.key : TableOp → HashedKey
  | .insert key _ _ => key
  | .insertExtent key _ _ => key
  | .delete key => key

/-- One call on the table. -/
def TableOp.apply (table : CuckooTable) : TableOp → CuckooTable × TableOutcome
  | .insert key value mode =>
      let (next, result) := table.insert key value mode
      (next, .inserted result)
  | .insertExtent key offset length =>
      let (next, result) := table.insertExtent key offset length
      (next, .inserted result)
  | .delete key =>
      let (next, found) := table.delete key
      (next, .deleted found)

/-- The table after a sequence of calls. -/
def runTable (table : CuckooTable) (ops : List TableOp) : CuckooTable :=
  ops.foldl (fun current op => (op.apply current).1) table

/-- What the calls of a sequence returned. -/
def outcomes (table : CuckooTable) : List TableOp → List TableOutcome
  | [] => []
  | op :: rest => (op.apply table).2 :: outcomes (op.apply table).1 rest

/-- The entry an insertion stores; a deletion stores none. -/
def TableOp.storedEntry : TableOp → Option Entry
  | .insert key value mode => some ⟨key, CuckooTable.packBody value mode, mode⟩
  | .insertExtent key offset length => some ⟨key, extentBody offset length, .extent⟩
  | .delete _ => none

section Steps

variable {table : CuckooTable}

theorem TableOp.key_of_storedEntry {op : TableOp} {entry : Entry}
    (stores : op.storedEntry = some entry) : op.key = entry.key := by
  cases op with
  | insert key value mode => exact (Option.some.inj stores) ▸ rfl
  | insertExtent key offset length => exact (Option.some.inj stores) ▸ rfl
  | delete key => cases stores

/-- An insertion is refused for the reserved hash and is the core insertion otherwise. -/
theorem TableOp.apply_of_storedEntry {op : TableOp} {entry : Entry}
    (stores : op.storedEntry = some entry) : op.apply table =
    if entry.key.hash = 0 then (table, .inserted (.error .invalidKey))
      else ((table.insertRaw entry).1, .inserted (table.insertRaw entry).2) := by
  cases op with
  | insert key value mode =>
    cases stores
    simp only [apply, CuckooTable.insert]
    split <;> rfl
  | insertExtent key offset length =>
    cases stores
    simp only [apply, CuckooTable.insertExtent]
    split <;> rfl
  | delete key => cases stores

/-- Only a deletion stores nothing. -/
theorem TableOp.eq_delete (op : TableOp) (stores : op.storedEntry = none) :
    ∃ key, op = .delete key := by
  cases op with
  | insert key value mode => cases stores
  | insertExtent key offset length => cases stores
  | delete key => exact ⟨key, rfl⟩

theorem TableOp.wellPlaced_apply (valid : WellPlaced table) (op : TableOp) :
    WellPlaced (op.apply table).1 := by
  cases stores : op.storedEntry with
  | none =>
    obtain ⟨key, rfl⟩ := op.eq_delete stores
    exact valid.delete key
  | some entry =>
    rw [apply_of_storedEntry stores]
    split
    · exact valid
    · next nonzero => exact (insertRaw_spec valid nonzero).1

/-- A call leaves the live buckets in homes of their keys, whether or not a key is live twice. -/
theorem TableOp.placed_apply (two : 2 ≤ table.bucketCount) (placed : Placed table) (op : TableOp) :
    Placed (op.apply table).1 := by
  cases stores : op.storedEntry with
  | none =>
    obtain ⟨key, rfl⟩ := op.eq_delete stores
    change Placed (table.delete key).1
    unfold CuckooTable.delete
    split
    · next idx found => exact placed.markTombstone ((findKeyIdx_isHome found).lt two)
    · exact placed
  | some entry =>
    rw [apply_of_storedEntry stores]
    split
    · exact placed
    · next nonzero => exact (insertRaw_conserves two placed nonzero).1

/-- After a call, successful or not, only the entry it stores is new. -/
theorem TableOp.mem_liveEntries_apply (two : 2 ≤ table.bucketCount) (placed : Placed table)
    (op : TableOp) {entry : Entry} (member : entry ∈ liveEntries (op.apply table).1) :
    entry ∈ liveEntries table ∨ op.storedEntry = some entry := by
  cases stores : op.storedEntry with
  | none =>
    obtain ⟨key, rfl⟩ := op.eq_delete stores
    change entry ∈ liveEntries (table.delete key).1 at member
    unfold CuckooTable.delete at member
    split at member
    · next idx found =>
        rw [← liveEntries_markTombstone ((findKeyIdx_isHome found).lt two)]
        exact .inl (Multiset.mem_add.mpr (.inl member))
    · exact .inl member
  | some own =>
    rw [apply_of_storedEntry stores] at member
    split at member
    · exact .inl member
    · next nonzero =>
        have trade := (insertRaw_conserves two placed nonzero).2
        have among : entry ∈ liveEntries table + {own} := trade ▸ Multiset.mem_add.mpr (.inl member)
        exact (Multiset.mem_add.mp among).imp_right fun same =>
          congrArg some (Multiset.mem_singleton.mp same).symm

/-- What a call can do to one bucket: nothing, a stored entry, or a tombstone. -/
theorem TableOp.bucket_apply (op : TableOp) (idx : ℕ) :
    (op.apply table).1.bucket idx = table.bucket idx ∨
      (∃ entry : Entry, (op.apply table).1.bucket idx = entry.toBucket) ∨
      ∃ key, op = .delete key ∧ table.findKeyIdx key = some idx ∧
        (op.apply table).1.bucket idx = (table.bucket idx).markTombstone := by
  cases stores : op.storedEntry with
  | none =>
    obtain ⟨key, rfl⟩ := op.eq_delete stores
    exact (delete_bucket key idx).imp_right fun buried => .inr ⟨key, rfl, buried⟩
  | some entry =>
    rw [apply_of_storedEntry stores]
    split
    · exact .inl rfl
    · exact (insertRaw_bucket entry idx).imp_right .inl

theorem TableOp.bucketCount_apply (op : TableOp) :
    (op.apply table).1.bucketCount = table.bucketCount := by
  cases stores : op.storedEntry with
  | none =>
    obtain ⟨key, rfl⟩ := op.eq_delete stores
    change (table.delete key).1.bucketCount = _
    unfold CuckooTable.delete
    split <;> rfl
  | some entry =>
    rw [apply_of_storedEntry stores]
    split
    · rfl
    · exact insertRaw_bucketCount entry

theorem bucketCount_runTable (ops : List TableOp) :
    (runTable table ops).bucketCount = table.bucketCount := by
  induction ops generalizing table with
  | nil => rfl
  | cons op rest ih => exact ih.trans op.bucketCount_apply

/-- Every run keeps the table invariant. -/
theorem wellPlaced_runTable (valid : WellPlaced table) (ops : List TableOp) :
    WellPlaced (runTable table ops) := by
  induction ops generalizing table with
  | nil => exact valid
  | cons op rest ih => exact ih (op.wellPlaced_apply valid)

/-- An insertion that reports a full table has traded the new entry for exactly one other. -/
theorem TableOp.liveEntries_of_tableFull (valid : WellPlaced table) {op : TableOp} {entry : Entry}
    (stores : op.storedEntry = some entry) (full : (op.apply table).2 = .inserted (.error .tableFull)) :
    ∃ lost ∈ liveEntries table + {entry},
      liveEntries (op.apply table).1 = (liveEntries table + {entry}).erase lost := by
  rw [apply_of_storedEntry stores] at full ⊢
  split at full
  · cases full
  · next nonzero =>
      rw [if_neg nonzero]
      obtain ⟨_, trade, ⟨success, _⟩ | ⟨_, _, lost, hand⟩⟩ := insertRaw_spec valid nonzero
      · rw [success] at full
        cases full
      · rw [hand, Option.toList_some, Multiset.coe_singleton, Multiset.add_comm, Multiset.singleton_add]
          at trade
        rw [← trade]
        exact ⟨lost, Multiset.mem_cons_self _ _, (Multiset.erase_cons_head _ _).symm⟩

end Steps

/-- In every run, failing insertions included, live buckets sit in a home of their key and no key is
live in two buckets; and an insertion that finds the table full ends with the entries it started
with and its own, less exactly one. -/
theorem tableFull_loses_one_entry {bucketCount : ℕ} (maxKick : ℕ)
    (powerOfTwo : bucketCount.isPowerOfTwo) (two : 2 ≤ bucketCount) (ops : List TableOp) :
    let table := runTable (CuckooTable.new bucketCount maxKick powerOfTwo) ops
    (∀ idx < table.bucketCount, ∀ entry, entryOf (table.bucket idx) = some entry →
      idx = table.h1 entry.key.hash ∨ idx = table.h2 entry.key.hash) ∧
    (∀ left < table.bucketCount, ∀ right < table.bucketCount, ∀ entry other,
      entryOf (table.bucket left) = some entry → entryOf (table.bucket right) = some other →
      entry.key = other.key → left = right) ∧
    ∀ (op : TableOp) (entry : Entry), op.storedEntry = some entry →
      (op.apply table).2 = .inserted (.error .tableFull) →
      ∃ lost ∈ liveEntries table + {entry},
        liveEntries (op.apply table).1 = (liveEntries table + {entry}).erase lost := by
  intro table
  have valid : WellPlaced table := wellPlaced_runTable (.new maxKick powerOfTwo two) ops
  refine ⟨valid.placed, ?_, ?_⟩
  · intro left leftBound right rightBound entry other live otherLive same
    exact valid.distinct.position_unique leftBound rightBound live otherLive same
  · intro op entry stores full
    exact op.liveEntries_of_tableFull valid stores full

/-- Two buckets hold two keys; with one kick, a third key pushes one of them out. -/
theorem third_key_loses_one_entry :
    let table := runTable (CuckooTable.new 2 1 ⟨1, rfl⟩)
      [.insert ⟨2, zeros 16⟩ [7] .inline, .insertExtent ⟨1, zeros 16⟩ 64 8]
    let op : TableOp := .insert ⟨4, zeros 16⟩ [9] .inline
    let entry : Entry := ⟨⟨4, zeros 16⟩, CuckooTable.packBody [9] .inline, .inline⟩
    (op.apply table).2 = .inserted (.error .tableFull) ∧
    ∃ lost ∈ liveEntries table + {entry},
      liveEntries (op.apply table).1 = (liveEntries table + {entry}).erase lost := by
  intro table op entry
  have full : (op.apply table).2 = .inserted (.error .tableFull) := by decide +kernel
  exact ⟨full, (tableFull_loses_one_entry 1 ⟨1, rfl⟩ le_rfl _).2.2 op entry rfl full⟩

section MapRefinement

/-- Bytes followed by zeros up to the size of a body. -/
def padded (bytes : Bytes) : Bytes := bytes ++ List.replicate (32 - bytes.length) 0

/-- What a lookup should report after a call on its key: the value as stored, or nothing. -/
def TableOp.reported : TableOp → Option LookupResult
  | .insert _ value .inline => some ⟨padded (value.take 32), .inline, 0, 0⟩
  | .insert _ value .extent =>
      let body := padded (value.take 16)
      some ⟨body, .extent, BitVec.ofNat 64 (decode (body.take 8)),
        BitVec.ofNat 64 (decode ((body.drop 8).take 8))⟩
  | .insertExtent _ offset length =>
      some ⟨padded (encode 8 offset.toNat ++ encode 8 length.toNat), .extent, offset, length⟩
  | .delete _ => none

/-- The finite map a sequence of calls builds: the latest call on a key decides. -/
def storedMap (ops : List TableOp) : HashedKey → Option LookupResult :=
  ops.foldl (fun map op => update map op.key op.reported) fun _ => none

theorem toList_packBody (value : Bytes) (mode : BucketMode) :
    (CuckooTable.packBody value mode).toList =
      padded (value.take (match mode with | .inline => 32 | .extent => 16)) := by
  have shorten : ∀ limit : ℕ, value.take (min value.length limit) = value.take limit := by
    intro limit
    rw [Nat.min_comm, ← List.take_take, List.take_length]
  cases mode with
  | inline =>
    rw [CuckooTable.packBody, shorten, toList_copyFromSlice_zeros (by simp), padded]
  | extent =>
    rw [CuckooTable.packBody, shorten, toList_copyFromSlice_zeros (by simp), padded]

private theorem toList_extentBody (offset length : BitVec 64) :
    (extentBody offset length).toList =
      padded (encode 8 offset.toNat ++ encode 8 length.toNat) := by
  have joined := copyFromSlice_append (zeros 32) 0 (encode 8 offset.toNat) (encode 8 length.toNat)
  rw [encode_length, Nat.zero_add] at joined
  rw [extentBody, joined, toList_copyFromSlice_zeros (by simp), padded]

/-- The reported values are what lookup makes of the stored entries. -/
theorem TableOp.reported_of_storedEntry {op : TableOp} {entry : Entry}
    (stores : op.storedEntry = some entry) : op.reported = some (Entry.result entry) := by
  cases op with
  | insert key value mode =>
    cases stores
    cases mode with
    | inline => simp only [reported, Entry.result, toList_packBody]
    | extent => simp only [reported, Entry.result, HashBucket.extentRefOf, slice, toList_packBody,
        List.drop_zero]
  | insertExtent key offset length =>
    cases stores
    simp only [reported, Entry.result, extentRefOf_extentBody, toList_extentBody]
  | delete key => cases stores

variable {table : CuckooTable}

/-- A successful insertion changes the lookup of its own key only. -/
theorem lookup_insertRaw (valid : WellPlaced table) {entry : Entry} (nonzero : entry.key.hash ≠ 0)
    (success : (table.insertRaw entry).2 = .ok ()) {key : HashedKey} (keyNonzero : key.hash ≠ 0) :
    (table.insertRaw entry).1.lookup key =
      if key = entry.key then some (Entry.result entry) else table.lookup key := by
  obtain ⟨next, _, ⟨_, stored⟩ | ⟨failure, _⟩⟩ := insertRaw_spec valid nonzero
  · apply Option.ext
    intro result
    simp only [lookup_eq_some_iff next keyNonzero, stored, Multiset.mem_add, Multiset.mem_filter,
      Multiset.mem_singleton]
    split
    · next same =>
        constructor
        · rintro ⟨other, ⟨_, apart⟩ | rfl, otherSame, rfl⟩
          · exact absurd (otherSame.trans same) apart
          · rfl
        · intro found
          exact ⟨entry, .inr rfl, same.symm, Option.some.inj found⟩
    · next differs =>
        rw [lookup_eq_some_iff valid keyNonzero]
        constructor
        · rintro ⟨other, ⟨live, _⟩ | rfl, otherSame, rfl⟩
          · exact ⟨other, live, otherSame, rfl⟩
          · exact absurd otherSame.symm differs
        · rintro ⟨other, live, rfl, rfl⟩
          exact ⟨other, .inl ⟨live, differs⟩, rfl, rfl⟩
  · rw [success] at failure
    cases failure

/-- A deletion hides its own key. -/
theorem lookup_delete_self (valid : WellPlaced table) {key : HashedKey} (nonzero : key.hash ≠ 0) :
    (table.delete key).1.lookup key = none := by
  rw [lookup_eq_none_iff (valid.delete key) nonzero, liveEntries_delete valid]
  intro entry member
  exact (Multiset.mem_filter.mp member).2

/-- A store over a bucket that does not answer for a key, before or after, changes nothing for it. -/
theorem lookup_setBucket_silent {idx : ℕ} (bound : idx < table.bucketCount) {bucket : HashBucket}
    {key : HashedKey} (before : table.answers key idx = false)
    (after : (table.setBucket idx bucket).answers key idx = false) :
    (table.setBucket idx bucket).lookup key = table.lookup key := by
  have unchanged : ∀ query, (table.setBucket idx bucket).answers key query = table.answers key query := by
    intro query
    by_cases same : idx = query
    · rw [← same, before, after]
    · rw [CuckooTable.answers, table.bucket_setBucket bound, if_neg same, CuckooTable.answers]
  have scan : (table.setBucket idx bucket).findKeyIdx key = table.findKeyIdx key := by
    simp only [CuckooTable.findKeyIdx, CuckooTable.setBucket_h1, CuckooTable.setBucket_h2,
      funext unchanged]
  unfold CuckooTable.lookup
  rw [scan]
  apply Option.map_congr
  intro query found
  rw [table.bucket_setBucket bound, if_neg]
  rintro rfl
  rw [List.find?_some found] at before
  contradiction

/-- A deletion changes the lookup of no other key, whatever its hash. -/
theorem lookup_delete_other (two : 2 ≤ table.bucketCount) {key other : HashedKey}
    (differs : other ≠ key) : (table.delete key).1.lookup other = table.lookup other := by
  unfold CuckooTable.delete
  split
  · next idx found =>
      have bound := (findKeyIdx_isHome found).lt two
      refine lookup_setBucket_silent bound ?_ ?_
      · rw [Bool.eq_false_iff]
        intro answer
        have same := (answers_eq_true.mp (List.find?_some found)).1
        exact differs ((answers_eq_true.mp answer).1.symm.trans same)
      · rw [CuckooTable.answers, table.bucket_setBucket bound, if_pos rfl]
        simp
  · rfl

/-- The table and the map agree on every real key. -/
structure Represents (table : CuckooTable) (map : HashedKey → Option LookupResult) : Prop where
  valid : WellPlaced table
  lookup : ∀ key : HashedKey, key.hash ≠ 0 → table.lookup key = map key

/-- One call that does not find the table full updates the map at its key. -/
theorem Represents.apply {map : HashedKey → Option LookupResult} (agrees : Represents table map)
    {op : TableOp} (nonzero : op.key.hash ≠ 0) (fits : (op.apply table).2 ≠ .inserted (.error .tableFull)) :
    Represents (op.apply table).1 (update map op.key op.reported) := by
  refine ⟨op.wellPlaced_apply agrees.valid, ?_⟩
  intro key keyNonzero
  cases stores : op.storedEntry with
  | none =>
    obtain ⟨deleted, rfl⟩ := op.eq_delete stores
    change (table.delete deleted).1.lookup key = update map deleted none key
    rw [update_apply]
    split
    · next same => rw [← same, lookup_delete_self agrees.valid keyNonzero]
    · next differs =>
        rw [lookup_delete_other agrees.valid.two differs, agrees.lookup key keyNonzero]
  | some entry =>
    have sameKey := TableOp.key_of_storedEntry stores
    rw [sameKey] at nonzero
    rw [TableOp.apply_of_storedEntry stores, if_neg nonzero] at fits ⊢
    have success : (table.insertRaw entry).2 = .ok () := by
      rcases (insertRaw_spec agrees.valid nonzero).2.2 with ⟨success, _⟩ | ⟨failure, _⟩
      · exact success
      · exact absurd (congrArg TableOutcome.inserted failure) fits
    rw [lookup_insertRaw agrees.valid nonzero success keyNonzero, TableOp.reported_of_storedEntry stores,
      update_apply, sameKey, agrees.lookup key keyNonzero]

/-- A whole run that never finds the table full updates the map call by call. -/
theorem Represents.runTable {map : HashedKey → Option LookupResult} (agrees : Represents table map)
    {ops : List TableOp} (nonzero : ∀ op ∈ ops, op.key.hash ≠ 0)
    (fits : .inserted (.error .tableFull) ∉ outcomes table ops) :
    Represents (runTable table ops)
      (ops.foldl (fun map op => update map op.key op.reported) map) := by
  induction ops generalizing table map with
  | nil => exact agrees
  | cons op rest ih =>
    rw [outcomes, List.mem_cons, not_or] at fits
    have next := agrees.apply (nonzero op List.mem_cons_self) (Ne.symm fits.1)
    exact ih next (fun later member => nonzero later (List.mem_cons_of_mem _ member)) fits.2

theorem represents_new {bucketCount : ℕ} (maxKick : ℕ)
    (powerOfTwo : bucketCount.isPowerOfTwo) (two : 2 ≤ bucketCount) :
    Represents (CuckooTable.new bucketCount maxKick powerOfTwo) fun _ => none := by
  have valid := WellPlaced.new maxKick powerOfTwo two
  refine ⟨valid, ?_⟩
  intro key nonzero
  rw [lookup_eq_none_iff valid nonzero, liveEntries_new]
  intro entry member
  exact absurd member (Multiset.notMem_zero entry)

/-- Lookups and deletions after any run that never finds the table full are those of the map the
calls built. -/
theorem lookup_refines_map {bucketCount : ℕ} (maxKick : ℕ)
    (powerOfTwo : bucketCount.isPowerOfTwo) (two : 2 ≤ bucketCount)
    (ops : List TableOp) (nonzero : ∀ op ∈ ops, op.key.hash ≠ 0) (fits : .inserted (.error .tableFull) ∉
      outcomes (CuckooTable.new bucketCount maxKick powerOfTwo) ops)
    (key : HashedKey) (keyNonzero : key.hash ≠ 0) :
    let table := runTable (CuckooTable.new bucketCount maxKick powerOfTwo) ops
    table.lookup key = storedMap ops key ∧
    ((table.delete key).2 = true ↔ (storedMap ops key).isSome) ∧
    (table.delete key).1.lookup key = none ∧
    ∀ other ≠ key, (table.delete key).1.lookup other = table.lookup other := by
  intro table
  have agrees : Represents table (storedMap ops) :=
    (represents_new maxKick powerOfTwo two).runTable nonzero fits
  refine ⟨agrees.lookup key keyNonzero, ?_, lookup_delete_self agrees.valid keyNonzero, ?_⟩
  · rw [← agrees.lookup key keyNonzero, delete_eq_true_iff agrees.valid keyNonzero,
      Option.isSome_iff_ne_none, Ne, lookup_eq_none_iff agrees.valid keyNonzero]
    simp
  · intro other differs
    exact lookup_delete_other agrees.valid.two differs

/-- A key is still found with its value after it was kicked to its second home. -/
theorem lookup_refines_map_kicked :
    let moved : HashedKey := ⟨0x200000004, zeros 16⟩
    let ops : List TableOp := [.insert moved [7] .inline, .insertExtent ⟨5, zeros 16⟩ 64 8,
      .insert ⟨8, zeros 16⟩ [9] .inline, .delete ⟨5, zeros 16⟩]
    (runTable (CuckooTable.new 4 2 ⟨2, rfl⟩) (ops.take 1)).findKeyIdx moved = some 0 ∧
      (runTable (CuckooTable.new 4 2 ⟨2, rfl⟩) ops).findKeyIdx moved = some 3 ∧
      (runTable (CuckooTable.new 4 2 ⟨2, rfl⟩) ops).lookup moved = some ⟨padded [7], .inline, 0, 0⟩ := by
  intro moved ops
  have stored : storedMap ops moved = some ⟨padded [7], .inline, 0, 0⟩ := by decide +kernel
  refine ⟨by decide +kernel, by decide +kernel, ?_⟩
  rw [← stored]
  exact (lookup_refines_map 2 ⟨2, rfl⟩ (by decide) ops (by decide +kernel) (by decide +kernel) _
    (by decide)).1

end MapRefinement

end Rdmas.Soundness
