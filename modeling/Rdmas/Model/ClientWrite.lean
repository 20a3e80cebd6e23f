import Rdmas.Model.RemoteInsert

/-! # The local client write path

`ClientWriter::insert` of `client/write.rs`: direct placement in one of the two homes, else a kick chain
from the first. The slices the source mutates are the state; every function returns the state it
leaves behind also when it fails.
-/

namespace Rdmas.Model

open LittleEndian FixedBytes

/-- The memory a local client writes to: the bucket slice and the optional extent region. -/
structure ClientMemory where
  buckets : List HashBucket
  largeObjects : Option LargeObjectRegion

namespace ClientMemory

/-- `buckets[idx]`. -/
def bucket (memory : ClientMemory) (idx : ℕ) : HashBucket :=
  memory.buckets.getD idx HashBucket.zeroed

/-- `buckets[idx] = bucket`. -/
def setBucket (memory : ClientMemory) (idx : ℕ) (bucket : HashBucket) : ClientMemory :=
  { memory with buckets := memory.buckets.set idx bucket }

/-- Allocate an extent for a value; the region is required. -/
def allocate (memory : ClientMemory) (value : Bytes) : ClientMemory × Except RdmaError ℕ :=
  match memory.largeObjects with
  | none => (memory, .error (.internal "Extent mode requires a LargeObjectRegion"))
  | some region =>
    match region.allocate value with
    | (region, none) =>
        ({ memory with largeObjects := some region }, .error (.internal "extent allocation failed"))
    | (region, some offset) => ({ memory with largeObjects := some region }, .ok offset)

end ClientMemory

namespace ClientWriter

/-- Maximum kick-chain length before declaring the table full. -/
def maxKick : ℕ := 16

/-- Attempt to insert at a single bucket index: `Ok(false)` if the bucket is occupied or locked. -/
def tryInsertAt (call : InsertCall) (memory : ClientMemory) (idx : ℕ) :
    ClientMemory × Except RdmaError Bool :=
  let bucket := memory.bucket idx
  if bucket.isLocked then (memory, .ok false)
  else if bucket.isEmpty || bucket.isTombstone then
    match call.mode with
    | .inline => (memory.setBucket idx (call.newBucket 0), .ok true)
    | .extent =>
      match memory.allocate call.value with
      | (memory, .error error) => (memory, .error error)
      | (memory, .ok offset) => (memory.setBucket idx (call.newBucket offset), .ok true)
  else (memory, .ok false)

/-- Write a key, value and mode into a bucket. A failed allocation leaves the key and the lock word
already written. -/
def writeToBucketInternal (call : InsertCall) (memory : ClientMemory) (idx : ℕ) :
    ClientMemory × Except RdmaError Unit :=
  let bucket := { memory.bucket idx with
    keyHash := call.key.hash
    keyOrDigest := call.key.digest
    lockVersion := call.mode.toU64 <<< 2 }
  match call.mode with
  | .inline =>
      let inlineVal := copyFromSlice (zeros 32) 0 (call.value.take (min call.value.length 32))
      (memory.setBucket idx (bucket.setInlineValue inlineVal), .ok ())
  | .extent =>
      match (memory.setBucket idx bucket).allocate call.value with
      | (memory, .error error) => (memory, .error error)
      | (memory, .ok offset) =>
          (memory.setBucket idx (bucket.setExtentRef (BitVec.ofNat 64 offset)
            (BitVec.ofNat 64 call.value.length)), .ok ())

/-- Displace occupants from `curIdx` on until a free slot is found or the kicks, the first argument,
are exhausted. A locked slot or an Extent occupant ends the chain. -/
def kickChain (bucketCount : ℕ) :
    ℕ → ClientMemory → ℕ → InsertCall → ClientMemory × Except RdmaError WriteResult
  | 0, memory, _, _ => (memory, .ok .tableFull)
  | kicks + 1, memory, curIdx, cur =>
      let occupant := memory.bucket curIdx
      if occupant.isLocked then (memory, .ok .tableFull)
      else if occupant.isExtent then (memory, .ok .tableFull)
      else
        let displaced : InsertCall :=
          ⟨⟨occupant.keyHash, occupant.keyOrDigest⟩, occupant.inlineValue.toList, .inline⟩
        match writeToBucketInternal cur memory curIdx with
        | (written, .error error) => (written, .error error)
        | (written, .ok ()) =>
            let occH1 := occupant.keyHash.toNat % bucketCount
            let occH2 := ((occupant.keyHash >>> 32).toNat % bucketCount) ||| 1
            let altIdx := if curIdx = occH1 then occH2 else occH1
            let alternate := written.bucket altIdx
            if alternate.isEmpty || alternate.isTombstone then
              match writeToBucketInternal displaced written altIdx with
              | (moved, .error error) => (moved, .error error)
              | (moved, .ok ()) => (moved, .ok (.inserted altIdx))
            else kickChain bucketCount kicks written altIdx displaced

/-- Insert a key and value. -/
def insert (call : InsertCall) (memory : ClientMemory) (bucketCount : ℕ) :
    ClientMemory × Except RdmaError WriteResult :=
  let h1 := call.key.hash.toNat % bucketCount
  let h2 := ((call.key.hash >>> 32).toNat % bucketCount) ||| 1
  match tryInsertAt call memory h1 with
  | (memory, .error error) => (memory, .error error)
  | (memory, .ok true) => (memory, .ok (.inserted h1))
  | (memory, .ok false) =>
    match tryInsertAt call memory h2 with
    | (memory, .error error) => (memory, .error error)
    | (memory, .ok true) => (memory, .ok (.inserted h2))
    | (memory, .ok false) => kickChain bucketCount maxKick memory h1 call

end ClientWriter

end Rdmas.Model
