import Rdmas.Math.SlotProgram
import Rdmas.Model.ClientWrite
import Rdmas.Model.CuckooLockFree

/-! # Which buckets an operation touches

The operations of `engine/cuckoo.rs` and of the local client of `client/write.rs` once more, as programs
over the bucket array: every `buckets[idx]` and every access through a bucket pointer is a read or a write
of its own. The sizes are those of the table, the extent region of a client is passed along.
-/

namespace Rdmas.Model

open LittleEndian FixedBytes SlotProgram

abbrev BucketProgram := SlotProgram HashBucket

/-- `hash % bucket_count` -/
def homeOne (bucketCount : ℕ) (hash : BitVec 64) : ℕ := hash.toNat % bucketCount

/-- `((hash >> 32) % bucket_count) | 1` -/
def homeTwo (bucketCount : ℕ) (hash : BitVec 64) : ℕ := ((hash >>> 32).toNat % bucketCount) ||| 1

/-- The key is there and not deleted. -/
def HashBucket.bears (key : HashedKey) (bucket : HashBucket) : Bool :=
  bucket.matchesKey key.hash key.digest && !bucket.isTombstone

namespace CuckooTable

variable (bucketCount maxKick : ℕ) (key : HashedKey)

def homes : List ℕ := [homeOne bucketCount key.hash, homeTwo bucketCount key.hash]

def lookupProgram : BucketProgram (Option LookupResult) :=
  (firstThat (HashBucket.bears key) (homes bucketCount key)).andThen fun found =>
    .done (found.map fun (_, bucket) => readBucketValue bucket)

def deleteProgram : BucketProgram Bool :=
  (firstThat (HashBucket.bears key) (homes bucketCount key)).andThen fun found =>
    match found with
    | some (idx, bucket) => .write idx bucket.markTombstone (.done true)
    | none => .done false

def kickChainProgram : ℕ → ℕ → Entry → BucketProgram (Except CuckooError Unit)
  | 0, _, _ => .done (.error .tableFull)
  | kicks + 1, curIdx, cur => .read curIdx fun bucket =>
      let occupant := bucket.toEntry
      let occH1 := homeOne bucketCount occupant.key.hash
      let occH2 := homeTwo bucketCount occupant.key.hash
      let altIdx := if curIdx = occH1 then occH2 else occH1
      .write curIdx cur.toBucket <| .read altIdx fun alternate =>
        if alternate.isFree then .write altIdx occupant.toBucket (.done (.ok ()))
        else kickChainProgram kicks altIdx occupant

def insertRawProgram (entry : Entry) : BucketProgram (Except CuckooError Unit) :=
  (firstThat (HashBucket.bears entry.key) (homes bucketCount entry.key)).andThen fun existing =>
    match existing with
    | some (idx, _) => .write idx entry.toBucket (.done (.ok ()))
    | none =>
      (firstThat HashBucket.isFree (homes bucketCount entry.key)).andThen fun free =>
        match free with
        | some (idx, _) => .write idx entry.toBucket (.done (.ok ()))
        | none => kickChainProgram bucketCount maxKick (homeOne bucketCount entry.key.hash) entry

def insertProgram (value : Bytes) (mode : BucketMode) : BucketProgram (Except CuckooError Unit) :=
  if key.hash = 0 then .done (.error .invalidKey)
  else insertRawProgram bucketCount maxKick ⟨key, packBody value mode, mode⟩

def insertExtentProgram (offset length : BitVec 64) : BucketProgram (Except CuckooError Unit) :=
  if key.hash = 0 then .done (.error .invalidKey)
  else insertRawProgram bucketCount maxKick ⟨key, extentBody offset length, .extent⟩

def tryReadBucketProgram (idx : ℕ) : BucketProgram (Option (Bytes × BucketMode)) :=
  .read idx fun bucket => .done <|
    if bucket.isLocked then none
    else if !bucket.matchesKey key.hash key.digest then none
    else if bucket.isInline then some (bucket.inlineValue.toList, .inline)
    else some ([], .extent)

def getFastProgram : BucketProgram (Option (Bytes × BucketMode)) :=
  (tryReadBucketProgram key (homeOne bucketCount key.hash)).andThen fun result =>
    match result with
    | some found => .done (some found)
    | none => tryReadBucketProgram key (homeTwo bucketCount key.hash)

/-- The array is as long as the table counts. -/
def lookupLockFreeProgram : BucketProgram (Option LookupResult) :=
  .read (homeOne bucketCount key.hash % bucketCount) fun b1 =>
    if !b1.isLocked && b1.matchesKey key.hash key.digest then .done (some (readBucketValue b1))
    else .read (homeTwo bucketCount key.hash % bucketCount) fun b2 =>
      if !b2.isLocked && b2.matchesKey key.hash key.digest then .done (some (readBucketValue b2))
      else .done none

/-- The slot is read and written through a pointer. -/
def tryCasInsertProgram (value : Bytes) (mode : BucketMode) (idx : ℕ) : BucketProgram Bool :=
  .read idx fun bucket =>
    if bucket.isLocked then .done false
    else if bucket.isEmpty || bucket.isTombstone then
      .write idx (bucket.writeBucketRaw key value mode) (.done true)
    else .done false

def insertLockFreeProgram (value : Bytes) (mode : BucketMode) : BucketProgram (Except CuckooError Unit) :=
  if key.hash = 0 then .done (.error .invalidKey)
  else
    (tryCasInsertProgram key value mode (homeOne bucketCount key.hash)).andThen fun taken =>
      if taken then .done (.ok ())
      else
        (tryCasInsertProgram key value mode (homeTwo bucketCount key.hash)).andThen fun taken =>
          if taken then .done (.ok ()) else .done (.error .tableFull)

end CuckooTable

/-- An allocation touches no bucket. -/
def allocateIn (largeObjects : Option LargeObjectRegion) (value : Bytes) :
    Option LargeObjectRegion × Except RdmaError ℕ :=
  let (memory, result) := (ClientMemory.mk [] largeObjects).allocate value
  (memory.largeObjects, result)

namespace ClientWriter

variable (bucketCount : ℕ)

def tryInsertAtProgram (call : InsertCall) (largeObjects : Option LargeObjectRegion) (idx : ℕ) :
    BucketProgram (Option LargeObjectRegion × Except RdmaError Bool) :=
  .read idx fun bucket =>
    if bucket.isLocked then .done (largeObjects, .ok false)
    else if bucket.isEmpty || bucket.isTombstone then
      match call.mode with
      | .inline => .write idx (call.newBucket 0) (.done (largeObjects, .ok true))
      | .extent =>
        match allocateIn largeObjects call.value with
        | (largeObjects, .error error) => .done (largeObjects, .error error)
        | (largeObjects, .ok offset) => .write idx (call.newBucket offset) (.done (largeObjects, .ok true))
    else .done (largeObjects, .ok false)

def writeToBucketInternalProgram (call : InsertCall) (largeObjects : Option LargeObjectRegion) (idx : ℕ) :
    BucketProgram (Option LargeObjectRegion × Except RdmaError Unit) :=
  .read idx fun old =>
    let bucket := { old with
      keyHash := call.key.hash
      keyOrDigest := call.key.digest
      lockVersion := call.mode.toU64 <<< 2 }
    match call.mode with
    | .inline =>
        let inlineVal := copyFromSlice (zeros 32) 0 (call.value.take (min call.value.length 32))
        .write idx (bucket.setInlineValue inlineVal) (.done (largeObjects, .ok ()))
    | .extent => .write idx bucket <|
        match allocateIn largeObjects call.value with
        | (largeObjects, .error error) => .done (largeObjects, .error error)
        | (largeObjects, .ok offset) =>
            .write idx (bucket.setExtentRef (BitVec.ofNat 64 offset) (BitVec.ofNat 64 call.value.length))
              (.done (largeObjects, .ok ()))

def kickChainProgram : ℕ → Option LargeObjectRegion → ℕ → InsertCall →
    BucketProgram (Option LargeObjectRegion × Except RdmaError WriteResult)
  | 0, largeObjects, _, _ => .done (largeObjects, .ok .tableFull)
  | kicks + 1, largeObjects, curIdx, cur => .read curIdx fun occupant =>
      if occupant.isLocked then .done (largeObjects, .ok .tableFull)
      else if occupant.isExtent then .done (largeObjects, .ok .tableFull)
      else
        let displaced : InsertCall :=
          ⟨⟨occupant.keyHash, occupant.keyOrDigest⟩, occupant.inlineValue.toList, .inline⟩
        (writeToBucketInternalProgram cur largeObjects curIdx).andThen fun (largeObjects, written) =>
          match written with
          | .error error => .done (largeObjects, .error error)
          | .ok () =>
            let occH1 := homeOne bucketCount occupant.keyHash
            let occH2 := homeTwo bucketCount occupant.keyHash
            let altIdx := if curIdx = occH1 then occH2 else occH1
            .read altIdx fun alternate =>
              if alternate.isEmpty || alternate.isTombstone then
                (writeToBucketInternalProgram displaced largeObjects altIdx).andThen
                  fun (largeObjects, moved) =>
                    match moved with
                    | .error error => .done (largeObjects, .error error)
                    | .ok () => .done (largeObjects, .ok (.inserted altIdx))
              else kickChainProgram kicks largeObjects altIdx displaced

def insertProgram (call : InsertCall) (largeObjects : Option LargeObjectRegion) :
    BucketProgram (Option LargeObjectRegion × Except RdmaError WriteResult) :=
  let h1 := homeOne bucketCount call.key.hash
  let h2 := homeTwo bucketCount call.key.hash
  (tryInsertAtProgram call largeObjects h1).andThen fun (largeObjects, first) =>
    match first with
    | .error error => .done (largeObjects, .error error)
    | .ok true => .done (largeObjects, .ok (.inserted h1))
    | .ok false =>
      (tryInsertAtProgram call largeObjects h2).andThen fun (largeObjects, second) =>
        match second with
        | .error error => .done (largeObjects, .error error)
        | .ok true => .done (largeObjects, .ok (.inserted h2))
        | .ok false => kickChainProgram bucketCount maxKick largeObjects h1 call

end ClientWriter

end Rdmas.Model
