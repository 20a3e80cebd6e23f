import Rdmas.Model.Cuckoo
import Rdmas.Model.Error
import Rdmas.Model.Extent

/-! # The client read path

`ClientReader` of `client/read.rs`. `get` reads a bucket slice and an extent region in memory;
`get_remote` reads both through a transport, 64 bytes of bucket at a time. Remote addresses are 64-bit
words and their sums wrap.
-/

namespace Rdmas.Model

open LittleEndian FixedBytes

/-- Result of a successful client read operation. -/
structure ReadResult where
  value : Bytes
  mode : BucketMode
deriving DecidableEq, Repr

/-- `u64::is_power_of_two`. -/
def isPowerOfTwo (count : ℕ) : Bool := count == 2 ^ count.log2

theorem isPowerOfTwo_eq_true {count : ℕ} :
    isPowerOfTwo count = true ↔ count.isPowerOfTwo := by
  rw [isPowerOfTwo, beq_iff_eq]
  constructor
  · exact fun same => ⟨_, same⟩
  · rintro ⟨exponent, rfl⟩
    rw [Nat.log2_two_pow]

namespace HashBucket

/-- `bytemuck::bytes_of`: the four fields of the `repr(C)` bucket, one behind the other. -/
def toBytes (bucket : HashBucket) : Vector Byte 64 :=
  let bytes := copyFromSlice (zeros 64) 0 (encode 8 bucket.lockVersion.toNat)
  let bytes := copyFromSlice bytes 8 (encode 8 bucket.keyHash.toNat)
  let bytes := copyFromSlice bytes 16 bucket.keyOrDigest.toList
  copyFromSlice bytes 32 bucket.body.toList

/-- `bytemuck::from_bytes`. -/
def fromBytes (bytes : Vector Byte 64) : HashBucket where
  lockVersion := BitVec.ofNat 64 (decode (slice bytes 0 8))
  keyHash := BitVec.ofNat 64 (decode (slice bytes 8 8))
  keyOrDigest := copyFromSlice (zeros 16) 0 (slice bytes 16 16)
  body := copyFromSlice (zeros 32) 0 (slice bytes 32 32)

/-- A bucket survives its trip through 64 bytes. -/
theorem fromBytes_toBytes (bucket : HashBucket) : fromBytes bucket.toBytes = bucket := by
  obtain ⟨lockVersion, keyHash, digest, body⟩ := bucket
  have word : ∀ (array : Vector Byte 64) (start : ℕ) (value : BitVec 64), start + 8 ≤ 64 →
      slice (copyFromSlice array start (encode 8 value.toNat)) start 8 = encode 8 value.toNat := by
    intro array start value bound
    simpa using slice_copyFromSlice array start (encode 8 value.toNat) (by simpa using bound)
  have block : ∀ (n start : ℕ) (array : Vector Byte 64) (bytes : Vector Byte n), start + n ≤ 64 →
      slice (copyFromSlice array start bytes.toList) start n = bytes.toList := by
    intro n start array bytes bound
    simpa using slice_copyFromSlice array start bytes.toList (by simpa using bound)
  simp only [fromBytes, toBytes, HashBucket.mk.injEq]
  refine ⟨?_, ?_, ?_, ?_⟩
  · rw [slice_copyFromSlice_apart _ (by decide) (.inl (by decide)),
      slice_copyFromSlice_apart _ (by decide) (.inl (by decide)),
      slice_copyFromSlice_apart _ (by decide) (.inl (by decide)), word _ _ _ (by decide),
      ofNat_decode_encode]
  · rw [slice_copyFromSlice_apart _ (by decide) (.inl (by decide)),
      slice_copyFromSlice_apart _ (by decide) (.inl (by decide)), word _ _ _ (by decide),
      ofNat_decode_encode]
  · rw [slice_copyFromSlice_apart _ (by decide) (.inl (by decide)), block _ _ _ _ (by decide),
      copyFromSlice_toList]
  · rw [block _ _ _ _ (by decide), copyFromSlice_toList]

end HashBucket

/-- What reads need of a transport: fill a buffer of the given length from remote memory, or fail. -/
structure Transport where
  read : (length : ℕ) → (localLkey : BitVec 32) → (remoteAddr : BitVec 64) → (remoteRkey : BitVec 32) →
    Except RdmaError (Vector Byte length)

/-- The registered regions of a server as a client addresses them, and the client's local key. -/
structure RemoteRegions where
  hashTableVaddr : BitVec 64
  hashTableRkey : BitVec 32
  largeObjVaddr : BitVec 64
  largeObjRkey : BitVec 32
  lkey : BitVec 32
deriving DecidableEq, Repr

namespace ClientReader

/-- Try to read from a specific bucket index: nothing if the bucket is locked, a tombstone or another
key's, or if its extent cannot be read. -/
def tryReadBucket (key : HashedKey) (buckets : List HashBucket)
    (largeObjects : Option LargeObjectRegion) (idx : ℕ) : Option ReadResult :=
  let bucket := buckets.getD idx HashBucket.zeroed
  if bucket.isLocked then none
  else if bucket.isTombstone then none
  else if !bucket.matchesKey key.hash key.digest then none
  else if bucket.isInline then some ⟨bucket.inlineValue.toList, .inline⟩
  else
    let (offset, _) := bucket.extentRef
    (largeObjects.bind fun region => region.read offset.toNat).map fun data => ⟨data, .extent⟩

/-- Read a key from a bucket slice. -/
def get (key : HashedKey) (buckets : List HashBucket) (largeObjects : Option LargeObjectRegion)
    (bucketCount : ℕ) : Except RdmaError (Option ReadResult) :=
  if key.hash = 0 then .error .invalidKey
  else if !isPowerOfTwo bucketCount then
    .error (.internal s!"bucket_count must be a power of 2, got {bucketCount}")
  else
    let h1 := key.hash.toNat % bucketCount
    let h2 := ((key.hash >>> 32).toNat % bucketCount) ||| 1
    let len := buckets.length
    if h1 ≥ len ∨ h2 ≥ len then
      .error (.internal s!"computed bucket index out of bounds: h1={h1} h2={h2} len={len}")
    else match tryReadBucket key buckets largeObjects h1 with
      | some result => .ok (some result)
      | none => .ok (tryReadBucket key buckets largeObjects h2)

/-- The value of a matched bucket; an Extent value is read from the address its offset points to. -/
def extractValue (bucket : HashBucket) (transport : Transport) (regions : RemoteRegions) :
    Except RdmaError ReadResult :=
  if bucket.isInline then .ok ⟨bucket.inlineValue.toList, .inline⟩
  else
    let (offset, length) := bucket.extentRef
    (transport.read length.toNat regions.lkey (regions.largeObjVaddr + offset)
      regions.largeObjRkey).map fun buf => ⟨buf.toList, .extent⟩

/-- Read one bucket and take its value if the bucket is unlocked and holds the key. The source writes
this twice, for each home. -/
def probeRemote (key : HashedKey) (transport : Transport) (regions : RemoteRegions) (idx : ℕ) :
    Except RdmaError (Option ReadResult) := do
  let bucketBuf ← transport.read 64 regions.lkey (regions.hashTableVaddr + BitVec.ofNat 64 (idx * 64))
    regions.hashTableRkey
  let bucket := HashBucket.fromBytes bucketBuf
  if !bucket.isLocked && bucket.matchesKey key.hash key.digest then
    some <$> extractValue bucket transport regions
  else pure none

/-- Read a key through a transport. The buffer that a bucket is read into, a `Vec<u8>`, is taken to lie at a
multiple of 64, the alignment of `HashBucket`; `bytemuck::from_bytes` panics otherwise. -/
def getRemote (key : HashedKey) (transport : Transport) (regions : RemoteRegions)
    (bucketCount : ℕ) : Except RdmaError (Option ReadResult) :=
  if key.hash = 0 then .error .invalidKey
  else if !isPowerOfTwo bucketCount then
    .error (.internal s!"bucket_count must be a power of 2, got {bucketCount}")
  else do
    let h1 := key.hash.toNat % bucketCount
    let h2 := ((key.hash >>> 32).toNat % bucketCount) ||| 1
    match ← probeRemote key transport regions h1 with
    | some result => pure (some result)
    | none => probeRemote key transport regions h2

end ClientReader

end Rdmas.Model
