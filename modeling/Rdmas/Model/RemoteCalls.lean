import Rdmas.Math.CallProgram
import Rdmas.Model.ClientRead
import Rdmas.Model.RemoteInsert
import Rdmas.Model.TcpResponse

/-! # Remote operations as programs of transport calls

`get_remote` and `insert_remote` with the buffers they hand to the transport, so that a buffer keeps what a
read leaves of it. Every call is followed by `?`. `get_remote` reads its second bucket into the buffer of
the first. Sums of remote addresses and offsets wrap.
-/

namespace Rdmas.Model

open LittleEndian FixedBytes

abbrev RemoteProgram := CallProgram TcpOp TcpReply RdmaError

/-- `bytemuck::from_bytes` on a buffer of 64 bytes, which is taken to lie at a multiple of 64. -/
def HashBucket.ofBuffer (buf : Bytes) : HashBucket := .fromBytes (copyFromSlice (zeros 64) 0 buf)

namespace ClientReader

def extractValueProgram (bucket : HashBucket) (regions : RemoteRegions) :
    RemoteProgram (Option ReadResult) :=
  if bucket.isInline then .done (.ok (some ⟨bucket.inlineValue.toList, .inline⟩))
  else
    let (offset, length) := bucket.extentRef
    .call (.read (List.replicate length.toNat 0) (regions.largeObjVaddr + offset) regions.largeObjRkey)
      fun reply => .done (.ok (some ⟨reply.bytes, .extent⟩))

/-- Read one bucket into the buffer; go on with the buffer if the bucket is locked or another key's. -/
def probeProgram (key : HashedKey) (regions : RemoteRegions) (bucketBuf : Bytes) (idx : ℕ)
    (next : Bytes → RemoteProgram (Option ReadResult)) : RemoteProgram (Option ReadResult) :=
  .call (.read bucketBuf (regions.hashTableVaddr + BitVec.ofNat 64 (idx * 64)) regions.hashTableRkey)
    fun reply =>
      let bucket := HashBucket.ofBuffer reply.bytes
      if !bucket.isLocked && bucket.matchesKey key.hash key.digest then extractValueProgram bucket regions
      else next reply.bytes

def getRemoteProgram (key : HashedKey) (regions : RemoteRegions) (bucketCount : ℕ) :
    RemoteProgram (Option ReadResult) :=
  if key.hash = 0 then .done (.error .invalidKey)
  else if !isPowerOfTwo bucketCount then
    .done (.error (.internal s!"bucket_count must be a power of 2, got {bucketCount}"))
  else
    let h1 := key.hash.toNat % bucketCount
    let h2 := ((key.hash >>> 32).toNat % bucketCount) ||| 1
    probeProgram key regions (List.replicate 64 0) h1 fun bucketBuf =>
      probeProgram key regions bucketBuf h2 fun _ => .done (.ok none)

end ClientReader

/-- The server's hash table and free-list region as `insert_remote` addresses them. -/
structure RemoteTable where
  hashTableVaddr : BitVec 64
  hashTableRkey : BitVec 32
  freeListVaddr : BitVec 64
  freeListRkey : BitVec 32
deriving DecidableEq, Repr

namespace ClientWriter

section Insert

variable (xxh64 : Xxh64) (call : InsertCall) (table : RemoteTable)

/-- The allocation of an Extent-mode write: reserve the space, then write header, payload and checksum. -/
def allocateProgram (next : ℕ → RemoteProgram WriteResult) : RemoteProgram WriteResult :=
  .call (.read (List.replicate 8 0) table.freeListVaddr table.freeListRkey) fun reply =>
    let oldOffset := BitVec.ofNat 64 (decode reply.bytes)
    let newOffset := oldOffset + BitVec.ofNat 64 (extentTotal call.value.length)
    .call (.cas oldOffset newOffset table.freeListVaddr table.freeListRkey) fun reply =>
      if !reply.verdict then .done (.error .casFailed)
      else
        let extentAddr := table.freeListVaddr + oldOffset
        let header : ExtentHeaderV2 := ⟨extentMagic, 1, call.value.length, 0, 0⟩
        .call (.write header.toBytes extentAddr table.freeListRkey) fun _ =>
        .call (.write call.value (extentAddr + BitVec.ofNat 64 headerSize) table.freeListRkey) fun _ =>
        .call (.write (encode 8 (xxh64 call.value 0).toNat) (extentAddr + 24) table.freeListRkey) fun _ =>
        next oldOffset.toNat

/-- Claim a bucket with the lock word that was read, then write it. -/
def claimProgram (remoteAddr oldLv : BitVec 64) (next : Bool → RemoteProgram WriteResult) (oldOffset : ℕ) :
    RemoteProgram WriteResult :=
  let newBucket := call.newBucket oldOffset
  .call (.cas oldLv newBucket.lockVersion remoteAddr table.hashTableRkey) fun reply =>
    if reply.verdict then
      .call (.write newBucket.toBytes.toList remoteAddr table.hashTableRkey) fun _ => next true
    else next false

/-- Attempt to insert at a remote bucket; go on with whether the insertion succeeded. -/
def tryInsertRemoteAtProgram (remoteAddr : BitVec 64) (next : Bool → RemoteProgram WriteResult) :
    RemoteProgram WriteResult :=
  .call (.read (List.replicate 64 0) remoteAddr table.hashTableRkey) fun reply =>
    let bucket := HashBucket.ofBuffer reply.bytes
    let claim := claimProgram call table remoteAddr bucket.lockVersion next
    if bucket.isLocked then next false
    else if bucket.isFree then
      match call.mode with
      | .inline => claim 0
      | .extent => allocateProgram xxh64 call table claim
    else next false

/-- Insert a key through a transport; buckets are read into buffers that are taken to be aligned to 64 bytes. -/
def insertRemoteProgram (bucketCount : ℕ) : RemoteProgram WriteResult :=
  let h1 := call.key.hash.toNat % bucketCount
  let h2 := ((call.key.hash >>> 32).toNat % bucketCount) ||| 1
  tryInsertRemoteAtProgram xxh64 call table (table.hashTableVaddr + BitVec.ofNat 64 (h1 * 64)) fun inserted =>
    if inserted then .done (.ok (.inserted h1))
    else tryInsertRemoteAtProgram xxh64 call table (table.hashTableVaddr + BitVec.ofNat 64 (h2 * 64))
      fun inserted => .done (.ok (if inserted then .inserted h2 else .tableFull))

end Insert

end ClientWriter

end Rdmas.Model
