import Rdmas.Model.CuckooLockFree
import Rdmas.Soundness.ClientOverwrite

/-! # The probes that take no lock against the table's own

On an unlocked table both lock-free readers report the first home that bears the key, deleted or not,
where `lookup` passes over tombstones. The lock-free insertion takes the first free home without looking
for the key, and in Extent mode leaves the body of the slot as it was.
-/

namespace Rdmas.Soundness

open Rdmas.Model LittleEndian FixedBytes

section Readers

variable {table : CuckooTable} {key : HashedKey}

/-- What the fast path reports of a bucket: Inline bytes, and nothing of an extent. -/
def fastValue (bucket : HashBucket) : Bytes × BucketMode :=
  if bucket.isExtent then ([], .extent) else (bucket.body.toList, .inline)

private theorem tryReadBucket_fast (unlocked : Unlocked table) (idx : ℕ) :
    table.tryReadBucket key idx =
      if (table.bucket idx).matchesKey key.hash key.digest then some (fastValue (table.bucket idx))
      else none := by
  simp only [CuckooTable.tryReadBucket, unlocked idx, isInline_eq, fastValue, HashBucket.inlineValue]
  cases (table.bucket idx).matchesKey key.hash key.digest <;> cases (table.bucket idx).isExtent <;> rfl

/-- The fast path reports the first home that bears the key. -/
theorem getFast_eq (unlocked : Unlocked table) (key : HashedKey) :
    table.getFast key = (firstMatch table key).map fun idx => fastValue (table.bucket idx) := by
  rw [CuckooTable.getFast, tryReadBucket_fast unlocked, tryReadBucket_fast unlocked, firstMatch,
    List.find?_cons, List.find?_cons, List.find?_nil]
  cases (table.bucket (table.h1 key.hash)).matchesKey key.hash key.digest <;>
    cases (table.bucket (table.h2 key.hash)).matchesKey key.hash key.digest <;> rfl

/-- So does the lock-free lookup: the reduction of its indices does nothing. -/
theorem lookupLockFree_eq (two : 2 ≤ table.bucketCount) (unlocked : Unlocked table) (key : HashedKey) :
    table.lookupLockFree key =
      (firstMatch table key).map fun idx => CuckooTable.readBucketValue (table.bucket idx) := by
  have first : table.h1 key.hash % table.buckets.length = table.h1 key.hash :=
    Nat.mod_eq_of_lt (table.sized ▸ table.h1_lt _)
  have second : table.h2 key.hash % table.buckets.length = table.h2 key.hash :=
    Nat.mod_eq_of_lt (table.sized ▸ table.h2_lt two _)
  simp only [CuckooTable.lookupLockFree, first, second, unlocked _, firstMatch, List.find?_cons,
    List.find?_nil, Bool.not_false, Bool.true_and]
  cases (table.bucket (table.h1 key.hash)).matchesKey key.hash key.digest <;>
    cases (table.bucket (table.h2 key.hash)).matchesKey key.hash key.digest <;> rfl

end Readers

/-- The three lookups of a key agree: they find it together, with the same mode, the same bytes if it is
Inline, and the same extent where it is told. -/
structure LookupsAgree (table : CuckooTable) (key : HashedKey) : Prop where
  fastFinds : (table.getFast key).isSome = (table.lookup key).isSome
  lockFreeFinds : (table.lookupLockFree key).isSome = (table.lookup key).isSome
  fast : ∀ found value mode, table.lookup key = some found → table.getFast key = some (value, mode) →
    mode = found.mode ∧ (found.mode = .inline → value = found.value)
  lockFree : ∀ found other, table.lookup key = some found → table.lookupLockFree key = some other →
    other.mode = found.mode ∧ (found.mode = .inline → other.value = found.value) ∧
      other.extentOffset = found.extentOffset ∧ other.extentLength = found.extentLength

private theorem fastValue_mode (bucket : HashBucket) :
    (fastValue bucket).2 = bucket.mode ∧
      (bucket.mode = .inline → (fastValue bucket).1 = bucket.body.toList) := by
  simp only [fastValue, HashBucket.mode]
  cases bucket.isExtent <;> simp

/-- After every run, the lookups of a key agree exactly when the first of its homes that bears its bytes,
if any, is not a tombstone. -/
theorem engine_lookups_agree_iff {bucketCount : ℕ} (maxKick : ℕ)
    (powerOfTwo : bucketCount.isPowerOfTwo) (two : 2 ≤ bucketCount)
    (ops : List TableOp) (key : HashedKey) (nonzero : key.hash ≠ 0) :
    let table := runTable (CuckooTable.new bucketCount maxKick powerOfTwo) ops
    LookupsAgree table key ↔
      ∀ idx, firstMatch table key = some idx → (table.bucket idx).isTombstone = false := by
  intro table
  have fresh := WellPlaced.new maxKick powerOfTwo two
  have valid : WellPlaced table := wellPlaced_runTable fresh ops
  have unlocked : Unlocked table := unlocked_runTable (unlocked_new bucketCount maxKick powerOfTwo) ops
  have never : NeverBehindTombstone table :=
    neverBehindTombstone_runTable fresh (neverBehindTombstone_new bucketCount maxKick powerOfTwo) ops
  have fast := getFast_eq unlocked key
  have lockFree := lookupLockFree_eq valid.two unlocked key
  constructor
  · rintro ⟨finds, _, _, _⟩ idx first
    by_contra tomb
    have missing := findKeyIdx_of_tombstone valid never nonzero first (by simpa using tomb)
    rw [fast, first, CuckooTable.lookup, missing] at finds
    cases finds
  · intro alive
    have same : table.lookup key =
        (firstMatch table key).map fun idx => CuckooTable.readBucketValue (table.bucket idx) := by
      cases first : firstMatch table key with
      | none => rw [CuckooTable.lookup, findKeyIdx_of_firstMatch_none first]
      | some idx =>
        rw [CuckooTable.lookup, findKeyIdx_of_firstMatch first (alive idx first)]
    refine ⟨?_, ?_, ?_, ?_⟩
    · rw [fast, same, Option.isSome_map, Option.isSome_map]
    · rw [lockFree, same]
    · intro found value mode looked read
      rw [same] at looked
      rw [fast] at read
      obtain ⟨idx, first, rfl⟩ := Option.map_eq_some_iff.mp looked
      rw [first, Option.map_some] at read
      obtain ⟨sameMode, bytes⟩ := fastValue_mode (table.bucket idx)
      rw [Option.some.inj read] at sameMode bytes
      exact ⟨sameMode, bytes⟩
    · intro found other looked read
      rw [lockFree, ← same, looked] at read
      cases read
      exact ⟨rfl, fun _ => rfl, rfl, rfl⟩

/-- A key that was stored is found by all of them. -/
theorem engine_lookups_agree_on_stored_key :
    LookupsAgree (runTable (CuckooTable.new 2 16 ⟨1, rfl⟩) [.insert ⟨2, zeros 16⟩ [7] .inline])
      ⟨2, zeros 16⟩ := by
  refine (engine_lookups_agree_iff 16 (⟨1, rfl⟩ : Nat.isPowerOfTwo 2) le_rfl
    [.insert ⟨2, zeros 16⟩ [7] .inline] ⟨2, zeros 16⟩ (by decide)).mpr ?_
  intro idx first
  have home : firstMatch (runTable (CuckooTable.new 2 16 ⟨1, rfl⟩) [.insert ⟨2, zeros 16⟩ [7] .inline])
      ⟨2, zeros 16⟩ = some 0 := by decide +kernel
  obtain rfl := Option.some.inj (home.symm.trans first)
  decide +kernel

/-- A deleted key is gone for `lookup` and still there for the other two. -/
theorem lock_free_lookups_return_deleted_key :
    let table := runTable (CuckooTable.new 2 16 ⟨1, rfl⟩)
      [.insert ⟨2, zeros 16⟩ [7] .inline, .delete ⟨2, zeros 16⟩]
    table.lookup ⟨2, zeros 16⟩ = none ∧
      table.getFast ⟨2, zeros 16⟩ = some (padded [7], .inline) ∧
      table.lookupLockFree ⟨2, zeros 16⟩ = some ⟨padded [7], .inline, 0, 0⟩ := by
  decide +kernel

section Writer

variable {table : CuckooTable} {key : HashedKey} {value : Bytes} {mode : BucketMode} {idx : ℕ}

/-- What the raw writer leaves in a slot: an Extent keeps the body that was there. -/
def rawEntry (bucket : HashBucket) (key : HashedKey) (value : Bytes) (mode : BucketMode) : Entry :=
  match mode with
  | .inline => ⟨key, CuckooTable.packBody value .inline, .inline⟩
  | .extent => ⟨key, bucket.body, .extent⟩

private theorem rawEntry_key (bucket : HashBucket) : (rawEntry bucket key value mode).key = key := by
  cases mode <;> rfl

/-- The raw writer leaves the packed value, except behind an Extent that was not packed before. -/
theorem rawEntry_eq_iff (bucket : HashBucket) :
    rawEntry bucket key value mode = ⟨key, CuckooTable.packBody value mode, mode⟩ ↔
      (mode = .extent → bucket.body = CuckooTable.packBody value .extent) := by
  cases mode <;> simp [rawEntry]

private theorem writeBucketRaw_eq (bucket : HashBucket) :
    bucket.writeBucketRaw key value mode = (rawEntry bucket key value mode).toBucket := by
  cases mode <;> rfl

private theorem tryCasInsert_eq (unlocked : Unlocked table) (idx : ℕ) :
    table.tryCasInsert key value mode idx =
      if (table.bucket idx).isFree then
        (table.writeSlot idx (rawEntry (table.bucket idx) key value mode), true)
      else (table, false) := by
  simp only [CuckooTable.tryCasInsert, unlocked idx, Bool.false_eq_true, if_false, writeBucketRaw_eq]
  rfl

/-- On an unlocked table the lock-free insertion takes the first free home, if there is one. -/
theorem insertLockFree_eq (unlocked : Unlocked table) (nonzero : key.hash ≠ 0) :
    table.insertLockFree key value mode =
      (firstHome table key).elim (table, .error .tableFull) fun idx =>
        (table.writeSlot idx (rawEntry (table.bucket idx) key value mode), .ok ()) := by
  simp only [CuckooTable.insertLockFree, if_neg nonzero, tryCasInsert_eq unlocked, firstHome,
    List.find?_cons, List.find?_nil]
  cases first : (table.bucket (table.h1 key.hash)).isFree with
  | true => rfl
  | false =>
    simp only [Bool.false_eq_true, if_false, tryCasInsert_eq unlocked]
    cases (table.bucket (table.h2 key.hash)).isFree <;> rfl

end Writer

/-- What an insertion promises: the key is found with the packed value and the mode, it is live in one
bucket, and no other key is affected. -/
structure InsertSemantics (table after : CuckooTable) (key : HashedKey) (value : Bytes)
    (mode : BucketMode) : Prop where
  lookup : after.lookup key = some (Entry.result ⟨key, CuckooTable.packBody value mode, mode⟩)
  lookupLockFree :
    after.lookupLockFree key = some (Entry.result ⟨key, CuckooTable.packBody value mode, mode⟩)
  once : timesLive after.buckets key = 1
  others : ∀ other : HashedKey, other.hash ≠ 0 → other ≠ key → after.lookup other = table.lookup other

/-- An entry is what its key and a lookup of it tell. -/
theorem Entry.eq_of_result {left right : Entry} (owner : left.key = right.key)
    (same : Entry.result left = Entry.result right) : left = right := by
  have bodies : left.body.toList = right.body.toList := congrArg LookupResult.value same
  have modes : left.mode = right.mode := congrArg LookupResult.mode same
  obtain ⟨key, body, mode⟩ := left
  obtain ⟨otherKey, otherBody, otherMode⟩ := right
  cases owner
  cases modes
  cases Vector.toList_inj.mp bodies
  rfl

section Taken

variable {table : CuckooTable} {entry : Entry} {idx : ℕ}

private theorem firstHome_spec {key : HashedKey} (taken : firstHome table key = some idx) :
    IsHome table key idx ∧ (table.bucket idx).isFree = true := by
  have free := isFree_of_firstHome taken
  rw [firstHome] at taken
  exact ⟨mem_homes.mp (List.mem_of_find?_eq_some taken), free⟩

private theorem answers_of_free {key : HashedKey} (nonzero : key.hash ≠ 0)
    (free : (table.bucket idx).isFree = true) :
    table.answers key idx = false := by
  rw [Bool.eq_false_iff]
  intro answer
  obtain ⟨held, live, _⟩ := (answers_iff nonzero).mp answer
  rw [entryOf_eq_none.mpr free] at live
  cases live

/-- Taking a free slot does not touch the lookup of another key. -/
theorem lookup_writeSlot_other (bound : idx < table.bucketCount) (free : (table.bucket idx).isFree = true)
    {other : HashedKey} (nonzero : other.hash ≠ 0) (differs : entry.key ≠ other) :
    (table.writeSlot idx entry).lookup other = table.lookup other := by
  refine lookup_setBucket_silent bound (answers_of_free nonzero free) ?_
  rw [Bool.eq_false_iff]
  intro answer
  have held := (answers_eq_true.mp answer).1
  rw [table.bucket_setBucket bound, if_pos rfl] at held
  exact differs held

/-- A key that was not live is found first in the slot it takes. -/
theorem firstMatch_writeSlot (two : 2 ≤ table.bucketCount) (taken : firstHome table entry.key = some idx)
    (absent : ∀ other ∈ liveEntries table, other.key ≠ entry.key) :
    firstMatch (table.writeSlot idx entry) entry.key = some idx := by
  have held : ∀ query, idx = query → ((table.writeSlot idx entry).bucket query).matchesKey
      entry.key.hash entry.key.digest = true := by
    rintro query rfl
    rw [table.bucket_writeSlot_self ((firstHome_spec taken).1.lt two)]
    exact matchesKey_iff.mpr rfl
  have first : (table.writeSlot idx entry).h1 entry.key.hash = table.h1 entry.key.hash := rfl
  have second : (table.writeSlot idx entry).h2 entry.key.hash = table.h2 entry.key.hash := rfl
  rw [firstMatch, first, second, List.find?_cons]
  by_cases here : idx = table.h1 entry.key.hash
  · rw [held _ here, here]
  · -- The first home is taken by another key: the slot is the second one.
    have full : (table.bucket (table.h1 entry.key.hash)).isFree = false := by
      rw [Bool.eq_false_iff]
      intro free
      rw [firstHome, List.find?_cons, free] at taken
      exact here (Option.some.inj taken).symm
    have there : idx = table.h2 entry.key.hash := ((firstHome_spec taken).1).resolve_left here
    have silent : ((table.writeSlot idx entry).bucket (table.h1 entry.key.hash)).matchesKey
        entry.key.hash entry.key.digest = false := by
      rw [table.bucket_writeSlot_ne here, Bool.eq_false_iff]
      intro matched
      exact absent _ (mem_liveEntries.mpr ⟨_, table.h1_lt _, entryOf_eq_some.mpr ⟨full, rfl⟩⟩)
        (matchesKey_iff.mp matched)
    rw [silent, List.find?_cons, held _ there, there]

/-- Where a key was not live, taking its first free slot makes every lookup of it find the new entry. -/
theorem lookups_writeSlot (two : 2 ≤ table.bucketCount) (unlocked : Unlocked table)
    (taken : firstHome table entry.key = some idx)
    (absent : ∀ other ∈ liveEntries table, other.key ≠ entry.key) :
    (table.writeSlot idx entry).lookup entry.key = some (Entry.result entry) ∧
      (table.writeSlot idx entry).lookupLockFree entry.key = some (Entry.result entry) := by
  have bound := (firstHome_spec taken).1.lt two
  have first := firstMatch_writeSlot two taken absent
  have slot := table.bucket_writeSlot_self bound entry
  have value : CuckooTable.readBucketValue ((table.writeSlot idx entry).bucket idx) =
      Entry.result entry := by
    rw [readBucketValue_eq, slot]
    have same : entry.toBucket.toEntry = entry := by
      rw [HashBucket.toEntry, toBucket_mode]
      rfl
    rw [same]
  have alive : ((table.writeSlot idx entry).bucket idx).isTombstone = false := by
    rw [slot, toBucket_isTombstone]
  constructor
  · rw [CuckooTable.lookup, findKeyIdx_of_firstMatch first alive, Option.map_some, value]
  · have count : 2 ≤ (table.writeSlot idx entry).bucketCount := two
    rw [lookupLockFree_eq count (unlocked.writeSlot idx entry), first, Option.map_some, value]

end Taken

/-- If the lock-free insertion succeeds on an unlocked table it is an insertion, exactly when the key was
not live and the slot it takes already held the body of an Extent value. -/
theorem insert_lock_free_is_insert_iff {table : CuckooTable} (two : 2 ≤ table.bucketCount)
    (unlocked : Unlocked table) (key : HashedKey) (nonzero : key.hash ≠ 0) (value : Bytes)
    (mode : BucketMode) :
    ((table.insertLockFree key value mode).2 = .ok () →
        InsertSemantics table (table.insertLockFree key value mode).1 key value mode) ↔
      ∀ idx, firstHome table key = some idx → timesLive table.buckets key = 0 ∧
        (mode = .extent → (table.bucket idx).body = CuckooTable.packBody value .extent) := by
  rw [insertLockFree_eq unlocked nonzero]
  cases taken : firstHome table key with
  | none => simp
  | some idx =>
    simp only [Option.elim_some, true_imp_iff, Option.some.injEq, forall_eq']
    rw [← rawEntry_eq_iff (table.bucket idx)]
    have owner := @rawEntry_key key value mode (table.bucket idx)
    generalize rawEntry (table.bucket idx) key value mode = entry at owner
    subst owner
    obtain ⟨home, free⟩ := firstHome_spec taken
    have bound := home.lt two
    have count := timesLive_of_added (liveEntries_writeSlot_free bound nonzero free) (rfl : entry.key = _)
    constructor
    · intro semantics
      have zero : timesLive table.buckets entry.key = 0 := by
        have once := semantics.once
        omega
      refine ⟨zero, ?_⟩
      have found := (lookups_writeSlot two unlocked taken (timesLive_eq_zero.mp zero)).1
      have same : Entry.result entry = Entry.result ⟨entry.key, CuckooTable.packBody value mode, mode⟩ :=
        Option.some.inj (found.symm.trans semantics.lookup)
      exact Entry.eq_of_result rfl same
    · rintro ⟨zero, packed⟩
      obtain ⟨found, foundToo⟩ := lookups_writeSlot two unlocked taken (timesLive_eq_zero.mp zero)
      have same : Entry.result entry = Entry.result ⟨entry.key, CuckooTable.packBody value mode, mode⟩ :=
        congrArg Entry.result packed
      rw [same] at found foundToo
      have others : ∀ other : HashedKey, other.hash ≠ 0 → other ≠ entry.key →
          (table.writeSlot idx entry).lookup other = table.lookup other :=
        fun other otherNonzero differs => lookup_writeSlot_other bound free otherNonzero differs.symm
      exact ⟨found, foundToo, by omega, others⟩

/-- A first Inline insertion is one. -/
theorem insert_lock_free_of_new_key :
    let table := CuckooTable.new 2 16 ⟨1, rfl⟩
    InsertSemantics table (table.insertLockFree ⟨2, zeros 16⟩ [9] .inline).1 ⟨2, zeros 16⟩ [9]
      .inline := by
  intro table
  refine (insert_lock_free_is_insert_iff (le_refl 2) (unlocked_new 2 16 ⟨1, rfl⟩) ⟨2, zeros 16⟩
    (by decide) [9] .inline).mpr ?_ (by decide +kernel)
  intro idx _
  exact ⟨by decide +kernel, fun extent => absurd extent (by decide)⟩

/-- A key that is present stays with its old value and is live twice; an Extent value is not stored. -/
theorem insert_lock_free_is_no_insert :
    let table := runTable (CuckooTable.new 2 16 ⟨1, rfl⟩) [.insert ⟨2, zeros 16⟩ [7] .inline]
    let again := table.insertLockFree ⟨2, zeros 16⟩ [9] .inline
    let extent := (CuckooTable.new 2 16 ⟨1, rfl⟩).insertLockFree ⟨2, zeros 16⟩ [9] .extent
    again.2 = .ok () ∧ again.1.lookup ⟨2, zeros 16⟩ = some ⟨padded [7], .inline, 0, 0⟩ ∧
      timesLive again.1.buckets ⟨2, zeros 16⟩ = 2 ∧
      extent.2 = .ok () ∧ extent.1.lookup ⟨2, zeros 16⟩ = some ⟨padded [], .extent, 0, 0⟩ ∧
      ((CuckooTable.new 2 16 ⟨1, rfl⟩).insert ⟨2, zeros 16⟩ [9] .extent).1.lookup ⟨2, zeros 16⟩ =
        some ⟨padded [9], .extent, 9, 0⟩ := by
  decide +kernel

end Rdmas.Soundness
