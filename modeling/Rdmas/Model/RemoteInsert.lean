import Rdmas.Model.Cuckoo
import Rdmas.Model.Error
import Rdmas.Model.RemoteAlloc

/-! # Remote insertion

`ClientWriter::insert_remote` as a machine. Every transport READ, CAS and WRITE is one step on the
server's memory: the buckets of the table and the free-list region, which are separate registrations.
A call tries its first home, then its second; there is no kick chain.
-/

namespace Rdmas.Model

open LittleEndian FixedBytes ByteMemory

/-- Outcome of a write operation. -/
inductive WriteResult where
  | inserted (bucketIdx : ℕ)
  | tableFull
deriving DecidableEq, Repr

/-- The arguments of one call. -/
structure InsertCall where
  key : HashedKey
  value : Bytes
  mode : BucketMode
deriving DecidableEq, Repr

namespace InsertCall

/-- The bucket a call builds; the offset is the one its extent was allocated at. -/
def newBucket (call : InsertCall) (oldOffset : ℕ) : HashBucket :=
  let newBucket : HashBucket := { HashBucket.zeroed with
    keyHash := call.key.hash
    keyOrDigest := call.key.digest
    lockVersion := call.mode.toU64 <<< 2 }
  match call.mode with
  | .inline =>
      newBucket.setInlineValue (copyFromSlice (zeros 32) 0 (call.value.take (min call.value.length 32)))
  | .extent =>
      newBucket.setExtentRef (BitVec.ofNat 64 oldOffset) (BitVec.ofNat 64 call.value.length)

@[simp] theorem newBucket_keyHash (call : InsertCall) (oldOffset : ℕ) :
    (call.newBucket oldOffset).keyHash = call.key.hash := by
  unfold newBucket
  split <;> rfl

@[simp] theorem newBucket_keyOrDigest (call : InsertCall) (oldOffset : ℕ) :
    (call.newBucket oldOffset).keyOrDigest = call.key.digest := by
  unfold newBucket
  split <;> rfl

@[simp] theorem newBucket_lockVersion (call : InsertCall) (oldOffset : ℕ) :
    (call.newBucket oldOffset).lockVersion = call.mode.toU64 <<< 2 := by
  unfold newBucket
  split <;> rfl

end InsertCall

/-- Which of the two candidate buckets a call is trying. -/
inductive Home where
  | first
  | second
deriving DecidableEq, Repr

def InsertCall.bucketIdx (call : InsertCall) (table : CuckooTable) : Home → ℕ
  | .first => table.h1 call.key.hash
  | .second => table.h2 call.key.hash

/-- Where a call stands. The bucket it has built is determined by the offset of its extent, which is 0
and not used for an Inline value. -/
inductive InsertPc where
  | reading (home : Home)
  | allocating (home : Home) (oldLv : BitVec 64) (allocation : AllocPc)
  | claiming (home : Home) (oldLv : BitVec 64) (oldOffset : ℕ)
  | writing (home : Home) (oldOffset : ℕ)
  | returned (result : Except RdmaError WriteResult)
deriving DecidableEq

namespace InsertPc

/-- `try_insert_remote_at` returned `Ok(false)`. -/
def declined : Home → InsertPc
  | .first => .reading .second
  | .second => .returned (.ok .tableFull)

/-- What follows an operation of the extent allocation. -/
def allocated (home : Home) (oldLv : BitVec 64) : AllocPc → InsertPc
  | .finished offset => .claiming home oldLv offset
  | .casFailed => .returned (.error .casFailed)
  | allocation => .allocating home oldLv allocation

/-- One transport operation of a call. The buffer that a bucket is read into is taken to lie at a multiple of
64, without which `bytemuck::from_bytes` panics. -/
def step (xxh64 : Xxh64) (call : InsertCall) (table : CuckooTable)
    (region : Memory) : InsertPc → Option (CuckooTable × Memory × InsertPc)
  | .reading home =>
      let bucket := table.bucket (call.bucketIdx table home)
      if bucket.isLocked then some (table, region, declined home)
      else if bucket.isFree then
        match call.mode with
        | .inline => some (table, region, .claiming home bucket.lockVersion 0)
        | .extent => some (table, region, .allocating home bucket.lockVersion .start)
      else some (table, region, declined home)
  | .allocating home oldLv allocation =>
      (allocation.step xxh64 call.value region).map fun (region, allocation) =>
        (table, region, allocated home oldLv allocation)
  | .claiming home oldLv oldOffset =>
      let bucketIdx := call.bucketIdx table home
      let bucket := table.bucket bucketIdx
      if bucket.lockVersion = oldLv then
        let claimed := { bucket with lockVersion := (call.newBucket oldOffset).lockVersion }
        some (table.setBucket bucketIdx claimed, region, .writing home oldOffset)
      else some (table, region, declined home)
  | .writing home oldOffset =>
      let bucketIdx := call.bucketIdx table home
      some (table.setBucket bucketIdx (call.newBucket oldOffset), region,
        .returned (.ok (.inserted bucketIdx)))
  | .returned _ => none

end InsertPc

/-- The server's memory and the calls on it. -/
structure InsertState (ι : Type) where
  table : CuckooTable
  region : Memory
  clients : ι → InsertPc

namespace InsertState

variable {ι : Type} [DecidableEq ι]

/-- Every call is about to read its first home. -/
def initial (table : CuckooTable) (region : Memory) : InsertState ι :=
  ⟨table, region, fun _ => .reading .first⟩

/-- The next operation of one client. -/
def step (xxh64 : Xxh64) (calls : ι → InsertCall) (state : InsertState ι)
    (client : ι) : Option (InsertState ι) :=
  ((state.clients client).step xxh64 (calls client) state.table state.region).map
    fun (table, region, pc) => ⟨table, region, Function.update state.clients client pc⟩

end InsertState

end Rdmas.Model
