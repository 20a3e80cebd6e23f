import Rdmas.Model.Layout

/-! # The cuckoo hash table

Two-choice insertion with kick-chain eviction, as `engine/cuckoo.rs` computes it. The assertions of
`CuckooTable::new` are fields of the table. Indices are computed as the source computes them; an
index that missed the array would stop the source with a panic and reads the zero bucket here.
From two buckets on `h1_lt` and `h2_lt` exclude that.
-/

namespace Rdmas.Model

open LittleEndian FixedBytes

/-- What one occupied bucket stores: the four values a kick chain carries from slot to slot. -/
structure Entry where
  key : HashedKey
  body : Vector Byte 32
  mode : BucketMode
deriving DecidableEq, Repr

/-- The snapshot of an occupant. -/
def HashBucket.toEntry (bucket : HashBucket) : Entry :=
  ⟨⟨bucket.keyHash, bucket.keyOrDigest⟩, bucket.body, bucket.mode⟩

/-- A slot that insertion may take. -/
def HashBucket.isFree (bucket : HashBucket) : Bool := bucket.isEmpty || bucket.isTombstone

/-- The freshly created local-mode bucket of an entry: the lock word holds the mode bits only. -/
def Entry.toBucket (entry : Entry) : HashBucket :=
  ⟨entry.mode.toU64 <<< 2, entry.key.hash, entry.key.digest, entry.body⟩

inductive CuckooError where
  | tableFull
  | invalidKey
deriving DecidableEq, Repr

/-- Result of a successful lookup. -/
structure LookupResult where
  value : Bytes
  mode : BucketMode
  extentOffset : BitVec 64
  extentLength : BitVec 64
deriving DecidableEq, Repr

structure CuckooTable where
  bucketCount : ℕ
  maxKick : ℕ
  buckets : List HashBucket
  sized : buckets.length = bucketCount
  powerOfTwo : bucketCount.isPowerOfTwo

namespace CuckooTable

/-- An empty table; the power-of-two assertion is the last argument. -/
def new (bucketCount maxKick : ℕ) (powerOfTwo : bucketCount.isPowerOfTwo) :
    CuckooTable :=
  ⟨bucketCount, maxKick, List.replicate bucketCount HashBucket.zeroed, List.length_replicate,
    powerOfTwo⟩

/-- `buckets[idx]`. -/
def bucket (table : CuckooTable) (idx : ℕ) : HashBucket :=
  table.buckets.getD idx HashBucket.zeroed

/-- `buckets[idx] = bucket`. -/
def setBucket (table : CuckooTable) (idx : ℕ) (bucket : HashBucket) : CuckooTable :=
  { table with
    buckets := table.buckets.set idx bucket
    sized := by rw [List.length_set, table.sized] }

def h1 (table : CuckooTable) (hash : BitVec 64) : ℕ := hash.toNat % table.bucketCount

def h2 (table : CuckooTable) (hash : BitVec 64) : ℕ :=
  ((hash >>> 32).toNat % table.bucketCount) ||| 1

/-- Pack a value into a 32-byte body: at most 32 bytes Inline, at most 16 bytes Extent. -/
def packBody (value : Bytes) (mode : BucketMode) : Vector Byte 32 :=
  let maxLen := match mode with
    | .inline => 32
    | .extent => 16
  copyFromSlice (zeros 32) 0 (value.take (min value.length maxLen))

/-- A bucket that answers for a key: same hash and digest, and not a tombstone. -/
def answers (table : CuckooTable) (key : HashedKey) (idx : ℕ) : Bool :=
  (table.bucket idx).matchesKey key.hash key.digest && !(table.bucket idx).isTombstone

/-- Scan the two candidate slots for an existing matching key. -/
def findKeyIdx (table : CuckooTable) (key : HashedKey) : Option ℕ :=
  [table.h1 key.hash, table.h2 key.hash].find? (table.answers key)

/-- What `lookup` makes of the bucket it found. -/
def readBucketValue (bucket : HashBucket) : LookupResult :=
  let (extentOffset, extentLength) := if bucket.isExtent then bucket.extentRef else (0, 0)
  ⟨bucket.body.toList, bucket.mode, extentOffset, extentLength⟩

def lookup (table : CuckooTable) (key : HashedKey) : Option LookupResult :=
  (table.findKeyIdx key).map fun idx => readBucketValue (table.bucket idx)

/-- Mark the key's bucket as a tombstone; tell whether the key was found. -/
def delete (table : CuckooTable) (key : HashedKey) : CuckooTable × Bool :=
  match table.findKeyIdx key with
  | some idx => (table.setBucket idx (table.bucket idx).markTombstone, true)
  | none => (table, false)

def writeSlot (table : CuckooTable) (idx : ℕ) (entry : Entry) : CuckooTable :=
  table.setBucket idx entry.toBucket

/-- The home of an occupant other than the slot it sits in. -/
def altIdx (table : CuckooTable) (curIdx : ℕ) (occupant : Entry) : ℕ :=
  if curIdx = table.h1 occupant.key.hash then table.h2 occupant.key.hash
  else table.h1 occupant.key.hash

/-- Evict the occupant of the current slot to its alternate slot, cascading until a free slot is
found or the kicks are exhausted. The loop counter of the source is the first argument; exhaustion
leaves the table partially modified and drops the entry in hand. -/
def kickChain (table : CuckooTable) : ℕ → ℕ → Entry → CuckooTable × Except CuckooError Unit
  | 0, _, _ => (table, .error .tableFull)
  | kicks + 1, curIdx, cur =>
      let occupant := (table.bucket curIdx).toEntry
      let written := table.writeSlot curIdx cur
      let altIdx := table.altIdx curIdx occupant
      -- The alternate is inspected after the overwrite: it may be the very slot just written.
      if (written.bucket altIdx).isFree then (written.writeSlot altIdx occupant, .ok ())
      else kickChain written kicks altIdx occupant

/-- Core insert logic after validation and body packing. -/
def insertRaw (table : CuckooTable) (entry : Entry) : CuckooTable × Except CuckooError Unit :=
  let homes := [table.h1 entry.key.hash, table.h2 entry.key.hash]
  match homes.find? (table.answers entry.key) with
  | some idx => (table.writeSlot idx entry, .ok ())
  | none =>
    match homes.find? fun idx => (table.bucket idx).isFree with
    | some idx => (table.writeSlot idx entry, .ok ())
    | none => table.kickChain table.maxKick (table.h1 entry.key.hash) entry

def insert (table : CuckooTable) (key : HashedKey) (value : Bytes) (mode : BucketMode) :
    CuckooTable × Except CuckooError Unit :=
  if key.hash = 0 then (table, .error .invalidKey)
  else table.insertRaw ⟨key, packBody value mode, mode⟩

/-- Insert with an explicit extent reference. -/
def insertExtent (table : CuckooTable) (key : HashedKey) (offset length : BitVec 64) :
    CuckooTable × Except CuckooError Unit :=
  if key.hash = 0 then (table, .error .invalidKey)
  else table.insertRaw ⟨key, extentBody offset length, .extent⟩

section Access

variable (table : CuckooTable)

@[simp] theorem setBucket_h1 (idx : ℕ) (bucket : HashBucket) (hash : BitVec 64) :
    (table.setBucket idx bucket).h1 hash = table.h1 hash := rfl

@[simp] theorem setBucket_h2 (idx : ℕ) (bucket : HashBucket) (hash : BitVec 64) :
    (table.setBucket idx bucket).h2 hash = table.h2 hash := rfl

theorem bucket_eq_getElem {idx : ℕ} (bound : idx < table.buckets.length) :
    table.bucket idx = table.buckets[idx] := List.getD_eq_getElem _ _ bound

theorem bucket_setBucket {idx query : ℕ} (bound : idx < table.bucketCount) (bucket : HashBucket) :
    (table.setBucket idx bucket).bucket query =
      if idx = query then bucket else table.bucket query := by
  rw [← table.sized] at bound
  by_cases same : idx = query
  · subst query
    simp [CuckooTable.bucket, setBucket, bound]
  · simp [CuckooTable.bucket, setBucket, same]

theorem setBucket_setBucket (idx : ℕ) (first second : HashBucket) :
    (table.setBucket idx first).setBucket idx second = table.setBucket idx second := by
  simp [setBucket]

/-- Whatever the index, a store changes the bucket it names or none. -/
theorem bucket_setBucket_or (idx query : ℕ) (bucket : HashBucket) :
    (table.setBucket idx bucket).bucket query = table.bucket query ∨
      idx = query ∧ (table.setBucket idx bucket).bucket query = bucket := by
  by_cases bound : idx < table.bucketCount
  · rw [table.bucket_setBucket bound]
    split
    · next same => exact .inr ⟨same, rfl⟩
    · exact .inl rfl
  · left
    have beyond : table.buckets.length ≤ idx := by rw [table.sized]; omega
    simp only [CuckooTable.bucket, setBucket, List.set_eq_of_length_le beyond]

theorem bucket_writeSlot_self {idx : ℕ} (bound : idx < table.bucketCount) (entry : Entry) :
    (table.writeSlot idx entry).bucket idx = entry.toBucket := by
  rw [writeSlot, table.bucket_setBucket bound, if_pos rfl]

theorem bucket_writeSlot_ne {idx query : ℕ} (apart : idx ≠ query) (entry : Entry) :
    (table.writeSlot idx entry).bucket query = table.bucket query :=
  (table.bucket_setBucket_or idx query entry.toBucket).resolve_right fun written => apart written.1

theorem h1_lt (hash : BitVec 64) : table.h1 hash < table.bucketCount := by
  obtain ⟨exponent, count⟩ := table.powerOfTwo
  exact Nat.mod_lt _ (count ▸ Nat.two_pow_pos exponent)

/-- Setting the low bit keeps an index in range as soon as there are two buckets. -/
theorem h2_lt (two : 2 ≤ table.bucketCount) (hash : BitVec 64) :
    table.h2 hash < table.bucketCount := by
  obtain ⟨exponent, count⟩ := table.powerOfTwo
  have low : (hash >>> 32).toNat % table.bucketCount < table.bucketCount := Nat.mod_lt _ (by omega)
  have one : 1 < table.bucketCount := by omega
  rw [count] at low one
  rw [h2, count]
  exact Nat.or_lt_two_pow low one

end Access

end CuckooTable

end Rdmas.Model
