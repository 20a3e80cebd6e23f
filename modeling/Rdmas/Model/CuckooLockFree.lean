import Rdmas.Model.Cuckoo

/-! # The probes of the table that take no lock

`get_fast`, `lookup_lock_free` and `insert_lock_free` of `engine/cuckoo.rs`. Each of them reads the two
homes with code of its own. The raw writer takes a slot through a pointer; run without interference it is
a read followed by a write.
-/

namespace Rdmas.Model

open LittleEndian FixedBytes

/-- Write key and value over a bucket. The body of an Extent bucket is left to the caller. -/
def HashBucket.writeBucketRaw (bucket : HashBucket) (key : HashedKey) (value : Bytes) (mode : BucketMode) :
    HashBucket :=
  let written : HashBucket :=
    { bucket with lockVersion := mode.toU64 <<< 2, keyHash := key.hash, keyOrDigest := key.digest }
  match mode with
  | .inline => written.setInlineValue (copyFromSlice (zeros 32) 0 (value.take (min value.length 32)))
  | .extent => written

namespace CuckooTable

variable (table : CuckooTable)

/-- The value of an unlocked bucket that bears the key; an Extent value is left to the caller. -/
def tryReadBucket (key : HashedKey) (idx : ℕ) : Option (Bytes × BucketMode) :=
  let bucket := table.bucket idx
  if bucket.isLocked then none
  else if !bucket.matchesKey key.hash key.digest then none
  else if bucket.isInline then some (bucket.inlineValue.toList, .inline)
  else some ([], .extent)

/-- Fast-path lookup. -/
def getFast (key : HashedKey) : Option (Bytes × BucketMode) :=
  (table.tryReadBucket key (table.h1 key.hash)).or (table.tryReadBucket key (table.h2 key.hash))

/-- Lookup without global lock. -/
def lookupLockFree (key : HashedKey) : Option LookupResult :=
  let h1 := table.h1 key.hash % table.buckets.length
  let h2 := table.h2 key.hash % table.buckets.length
  let b1 := table.bucket h1
  let b2 := table.bucket h2
  if !b1.isLocked && b1.matchesKey key.hash key.digest then some (readBucketValue b1)
  else if !b2.isLocked && b2.matchesKey key.hash key.digest then some (readBucketValue b2)
  else none

/-- Take a specific slot if it is unlocked and free. -/
def tryCasInsert (key : HashedKey) (value : Bytes) (mode : BucketMode) (idx : ℕ) : CuckooTable × Bool :=
  let bucket := table.bucket idx
  if bucket.isLocked then (table, false)
  else if bucket.isEmpty || bucket.isTombstone then
    (table.setBucket idx (bucket.writeBucketRaw key value mode), true)
  else (table, false)

/-- Insert into the first home that can be taken. There is no kick chain. -/
def insertLockFree (key : HashedKey) (value : Bytes) (mode : BucketMode) :
    CuckooTable × Except CuckooError Unit :=
  if key.hash = 0 then (table, .error .invalidKey)
  else
    let (first, taken) := table.tryCasInsert key value mode (table.h1 key.hash)
    if taken then (first, .ok ())
    else
      let (second, taken) := first.tryCasInsert key value mode (table.h2 key.hash)
      if taken then (second, .ok ()) else (second, .error .tableFull)

end CuckooTable

end Rdmas.Model
