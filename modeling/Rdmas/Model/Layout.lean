import Rdmas.Math.ByteArray
import Rdmas.Model.LockWord

/-! # Buckets, keys and headers

The records shared by the server and its clients. A bucket is Inline or Extent by the mode bit of
its lock word; its 32-byte body is the value itself or a packed `(offset, length)` pair. Padding
fields that are always zero appear only in the byte images of the headers.
-/

namespace Rdmas.Model

open LittleEndian FixedBytes

/-- XXH64 of some bytes, under a seed. -/
abbrev Xxh64 := Bytes → BitVec 64 → BitVec 64

/-- A 64-bit hash together with a 16-byte digest for collision verification. -/
structure HashedKey where
  hash : BitVec 64
  digest : Vector Byte 16
deriving DecidableEq, Repr

/-- The fundamental record of the hash table. -/
structure HashBucket where
  lockVersion : BitVec 64
  keyHash : BitVec 64
  keyOrDigest : Vector Byte 16
  body : Vector Byte 32
deriving DecidableEq, Repr

namespace HashBucket

def zeroed : HashBucket := ⟨0, 0, zeros 16, zeros 32⟩

variable (bucket : HashBucket)

def isLocked : Bool := LockWord.isLocked bucket.lockVersion

def isTombstone : Bool := LockWord.isTombstone bucket.lockVersion

def isInline : Bool := bucket.lockVersion &&& 0x04#64 == 0

def isExtent : Bool := LockWord.isExtent bucket.lockVersion

def version : BitVec 32 := LockWord.version bucket.lockVersion

def leaseTs : BitVec 32 := LockWord.leaseTs bucket.lockVersion

/-- Preserve the version, stamp the lease, set the mode and locked bits, clear the tombstone. -/
def setLocked (leaseTsMs : BitVec 32) (mode : BucketMode) : HashBucket :=
  { bucket with lockVersion :=
      ((bucket.lockVersion >>> 32) <<< 32) ||| ((leaseTsMs.setWidth 64 &&& 0xFFFFFF#64) <<< 8) |||
        (mode.toU64 <<< 2) ||| 0x01#64 }

/-- Write a new version, preserve the mode bit, clear everything else. -/
def unlockBucket (newVersion : BitVec 32) : HashBucket :=
  { bucket with lockVersion := (newVersion.setWidth 64 <<< 32) ||| (bucket.lockVersion &&& 0x04#64) }

/-- Set the tombstone bit; version and mode are preserved, and so are the key bytes. -/
def markTombstone : HashBucket :=
  { bucket with lockVersion :=
      (bucket.lockVersion &&& 0xFFFFFFFF00000000#64) ||| (bucket.lockVersion &&& 0x04#64) ||| 0x02#64 }

/-- Locked, and the lease is at least `timeoutMs` old by wrapping 32-bit subtraction. -/
def isExpired (nowMs timeoutMs : BitVec 32) : Bool :=
  bucket.isLocked && decide (timeoutMs ≤ nowMs - bucket.leaseTs)

def inlineValue : Vector Byte 32 := bucket.body

def setInlineValue (value : Vector Byte 32) : HashBucket := { bucket with body := value }

/-- Write an extent pointer into `body[0..16]`. -/
def setExtentRef (offset length : BitVec 64) : HashBucket :=
  { bucket with body :=
      copyFromSlice (copyFromSlice bucket.body 0 (encode 8 offset.toNat)) 8 (encode 8 length.toNat) }

/-- Read the extent pointer of a body. -/
def extentRefOf (body : Vector Byte 32) : BitVec 64 × BitVec 64 :=
  (BitVec.ofNat 64 (decode (slice body 0 8)), BitVec.ofNat 64 (decode (slice body 8 8)))

def extentRef : BitVec 64 × BitVec 64 := extentRefOf bucket.body

/-- A zero hash means empty unless the tombstone bit is set. -/
def isEmpty : Bool := bucket.keyHash == 0 && !bucket.isTombstone

def matchesKey (hash : BitVec 64) (digest : Vector Byte 16) : Bool :=
  bucket.keyHash == hash && bucket.keyOrDigest == digest

/-- The mode of an occupant as the kick chains and lookups compute it. -/
def mode : BucketMode := if bucket.isExtent then .extent else .inline

/-- A tombstone is a packed word without lease: its version and mode are the former ones. -/
theorem markTombstone_lockVersion :
    bucket.markTombstone.lockVersion =
      LockWord.pack bucket.version 0 (LockWord.mode bucket.lockVersion) 0x02#64 := by
  simp only [markTombstone, LockWord.upper_half, LockWord.mode_bit, LockWord.pack]
  simp [version]

@[simp] theorem isTombstone_markTombstone : bucket.markTombstone.isTombstone = true := by
  rw [isTombstone, markTombstone_lockVersion, LockWord.isTombstone_pack]
  rfl

/-- An extent pointer written into a body is read back exactly, whatever the body held. -/
theorem extentRefOf_copy (body : Vector Byte 32) (offset length : BitVec 64) :
    extentRefOf (copyFromSlice (copyFromSlice body 0 (encode 8 offset.toNat)) 8
      (encode 8 length.toNat)) = (offset, length) := by
  have first := slice_copyFromSlice body 0 (encode 8 offset.toNat) (by simp)
  have second := slice_copyFromSlice (copyFromSlice body 0 (encode 8 offset.toNat)) 8
    (encode 8 length.toNat) (by simp)
  rw [encode_length] at first second
  rw [extentRefOf, slice_copyFromSlice_apart _ (by omega) (.inl (by omega)), first, second,
    ofNat_decode_encode, ofNat_decode_encode]

end HashBucket

/-- The packed body of an extent reference. -/
def extentBody (offset length : BitVec 64) : Vector Byte 32 :=
  copyFromSlice (copyFromSlice (zeros 32) 0 (encode 8 offset.toNat)) 8 (encode 8 length.toNat)

theorem extentRefOf_extentBody (offset length : BitVec 64) :
    HashBucket.extentRefOf (extentBody offset length) = (offset, length) :=
  HashBucket.extentRefOf_copy (zeros 32) offset length

/-- Extent-header magic value, ASCII "RDMA". -/
def extentMagic : ℕ := 0x52444D41

/-- Size of an `ExtentHeaderV2` in bytes. -/
def headerSize : ℕ := 32

/-- The 32-byte header in front of an extent. -/
structure ExtentHeaderV2 where
  magic : ℕ
  version : Byte
  dataLen : ℕ
  epochMark : ℕ
  checksum : ℕ
deriving DecidableEq, Repr

/-- `bytemuck::bytes_of`: the `repr(C)` image, with its two padding fields. -/
def ExtentHeaderV2.toBytes (header : ExtentHeaderV2) : Bytes :=
  encode 4 header.magic ++ [header.version] ++ [0, 0, 0] ++ encode 4 header.dataLen ++
    [0, 0, 0, 0] ++ encode 8 header.epochMark ++ encode 8 header.checksum

@[simp] theorem ExtentHeaderV2.toBytes_length (header : ExtentHeaderV2) :
    header.toBytes.length = headerSize := by
  simp [toBytes, headerSize]

/-- Header at the start of the free-list region; clients compare-and-swap `bumpOffset`. -/
structure FreeListHeader where
  bumpOffset : ℕ
deriving DecidableEq, Repr

/-- The 64-byte image of the header: the offset and 56 bytes of padding. -/
def FreeListHeader.toBytes (header : FreeListHeader) : Bytes :=
  encode 8 header.bumpOffset ++ List.replicate 56 0

end Rdmas.Model
