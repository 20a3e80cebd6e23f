import Mathlib.Logic.Function.Basic
import Rdmas.Model.Layout

/-! # Bucket locks, leases and optimistic reads

The functions of `engine/concurrency.rs`, and the machine of their interleavings on one bucket. Every
load, store, compare-and-swap and field access of the bucket is one step. Clock readings are
arguments of the steps that make them, so nothing is assumed about the clocks.
-/

namespace Rdmas.Model

open LittleEndian

/-- Both timestamps are cut to 24 bits; the subtraction wraps at 32. -/
def isLeaseExpired (oldTs now timeoutMs : BitVec 32) : Bool :=
  let old24 := oldTs &&& 0xFFFFFF#32
  let now24 := now &&& 0xFFFFFF#32
  timeoutMs < now24 - old24

/-- The word an acquirer swaps in: the version it saw, its lease, its mode, the locked bit. -/
def acquireWord (oldLv : BitVec 64) (now : BitVec 32) (mode : BucketMode) : BitVec 64 :=
  let version := oldLv >>> 32
  let leaseBits := (now.setWidth 64 &&& 0xFFFFFF#64) <<< 8
  let modeBit := mode.toU64 <<< 2
  (version <<< 32) ||| leaseBits ||| modeBit ||| 0x01#64

/-- The word `release_lock` stores, whatever the bucket holds by then. -/
def releaseWord (mode : BucketMode) (version : BitVec 32) : BitVec 64 :=
  let newVersion := version + 1
  let modeBit := mode.toU64 <<< 2
  (newVersion.setWidth 64 <<< 32) ||| modeBit

/-- Snapshot of a bucket read without holding a lock. -/
structure ReadGuard where
  version : BitVec 32
  keyHash : BitVec 64
  keyOrDigest : Vector Byte 16
  body : Vector Byte 32
  lockVersion : BitVec 64
deriving DecidableEq, Repr

inductive LockError where
  | locked
  | expired
deriving DecidableEq, Repr

variable (bucket : HashBucket)

/-- An optimistic read that nothing interrupts; `ReaderPc.step` below makes its accesses one by one. -/
def optimisticRead : Except LockError ReadGuard :=
  if bucket.isLocked then .error .locked
  else .ok ⟨bucket.version, bucket.keyHash, bucket.keyOrDigest, bucket.body, bucket.lockVersion⟩

def verifyRead (guard : ReadGuard) (currentLv : BitVec 64) : Bool :=
  !LockWord.isLocked currentLv && LockWord.version currentLv == guard.version

inductive TakeoverResult where
  | success (newVersion : BitVec 64)
  | notExpired
  | notLocked
deriving DecidableEq, Repr

/-- Unlock a bucket whose lease has run out, keeping the mode and bumping the version. -/
def forceTakeover (now timeoutMs : BitVec 32) : HashBucket × TakeoverResult :=
  if !bucket.isLocked then (bucket, .notLocked)
  else if !isLeaseExpired bucket.leaseTs now timeoutMs then (bucket, .notExpired)
  else
    let modeBit := bucket.lockVersion &&& 0x04#64
    let newVersion := (bucket.version + 1).setWidth 64 <<< 32
    ({ bucket with lockVersion := newVersion ||| modeBit }, .success (newVersion ||| modeBit))

/-- `try_acquire_lock` where nothing comes between its load and its swap, with the two readings of the clock
it makes; `LockState.step` below makes its accesses one by one. -/
def tryAcquireLock (mode : BucketMode) (now later : BitVec 32) :
    HashBucket × Except LockError (BitVec 64) :=
  let oldLv := bucket.lockVersion
  if LockWord.isLocked oldLv && !isLeaseExpired (LockWord.leaseTs oldLv) now leaseTimeoutMs then
    (bucket, .error .locked)
  else ({ bucket with lockVersion := acquireWord oldLv later mode }, .ok oldLv)

def releaseLock (mode : BucketMode) (version : BitVec 32) : HashBucket :=
  { bucket with lockVersion := releaseWord mode version }

/-- Clear a bucket after a takeover so that it can be reused. -/
def repairAfterCrash (bucket : HashBucket) : HashBucket :=
  { bucket with
    lockVersion := 0
    keyHash := 0
    keyOrDigest := FixedBytes.zeros 16
    body := FixedBytes.zeros 32 }

theorem acquireWord_eq (oldLv : BitVec 64) (now : BitVec 32) (mode : BucketMode) :
    acquireWord oldLv now mode = LockWord.pack (LockWord.version oldLv) now mode 0x01#64 := by
  have shifted : (oldLv >>> 32) <<< 32 = (LockWord.version oldLv).setWidth 64 <<< 32 := by
    apply BitVec.eq_of_getLsbD_eq
    intro index bound
    simp only [LockWord.version, BitVec.getLsbD_shiftLeft, BitVec.getLsbD_ushiftRight,
      BitVec.getLsbD_setWidth]
    by_cases low : index < 32
    · simp [low]
    · simp [low, show index - 32 < 32 by omega, show index - 32 < 64 by omega]
  simp only [acquireWord, shifted, LockWord.pack]

theorem releaseWord_eq (mode : BucketMode) (version : BitVec 32) :
    releaseWord mode version = LockWord.pack (version + 1) 0 mode 0 := by
  simp [releaseWord, LockWord.pack]

section Words

variable (oldLv : BitVec 64) (now version : BitVec 32) (mode : BucketMode)

@[simp] theorem isLocked_acquireWord : LockWord.isLocked (acquireWord oldLv now mode) = true := by
  rw [acquireWord_eq, LockWord.isLocked_pack]
  rfl

@[simp] theorem version_acquireWord :
    LockWord.version (acquireWord oldLv now mode) = LockWord.version oldLv := by
  rw [acquireWord_eq, LockWord.version_pack _ _ _ (by decide)]

@[simp] theorem isLocked_releaseWord : LockWord.isLocked (releaseWord mode version) = false := by
  rw [releaseWord_eq, LockWord.isLocked_pack]
  rfl

@[simp] theorem version_releaseWord : LockWord.version (releaseWord mode version) = version + 1 := by
  rw [releaseWord_eq, LockWord.version_pack _ _ _ (by decide)]

end Words

/-- A takeover of an expired lock stores what a release would. -/
theorem forceTakeover_expired {bucket : HashBucket} {now timeoutMs : BitVec 32}
    (expired : (bucket.isLocked && isLeaseExpired bucket.leaseTs now timeoutMs) = true) :
    let word := releaseWord (LockWord.mode bucket.lockVersion) bucket.version
    forceTakeover bucket now timeoutMs =
      ({ bucket with lockVersion := word }, .success word) := by
  obtain ⟨locked, expired⟩ := (Bool.and_eq_true _ _).mp expired
  simp only [forceTakeover, locked, expired, Bool.not_true, Bool.false_eq_true, if_false,
    LockWord.mode_bit, releaseWord]

/-- Otherwise the bucket is left alone. -/
theorem forceTakeover_refused {bucket : HashBucket} {now timeoutMs : BitVec 32}
    (refused : (bucket.isLocked && isLeaseExpired bucket.leaseTs now timeoutMs) = false) :
    forceTakeover bucket now timeoutMs =
      (bucket, if bucket.isLocked then .notExpired else .notLocked) := by
  unfold forceTakeover
  cases locked : bucket.isLocked with
  | false => rfl
  | true =>
    rw [locked, Bool.true_and] at refused
    simp [refused]

/-- Where a client of the lock stands. A holder remembers the word its swap replaced and, for the
statements about takeovers, whether somebody else has taken its lock since. -/
inductive ClientPc where
  | idle
  | trying (mode : BucketMode)
  | loaded (mode : BucketMode) (oldLv : BitVec 64)
  | holding (prev : BitVec 64) (takenOver : Bool)
deriving DecidableEq, Repr

/-- Between acquire and release. -/
def ClientPc.isHolding : ClientPc → Bool
  | .holding _ _ => true
  | _ => false

/-- Where an optimistic reader stands: the fields it has read so far. -/
inductive ReaderPc where
  | idle
  | sawUnlocked
  | haveVersion (version : BitVec 32)
  | haveKeyHash (version : BitVec 32) (keyHash : BitVec 64)
  | haveDigest (version : BitVec 32) (keyHash : BitVec 64) (keyOrDigest : Vector Byte 16)
  | haveBody (version : BitVec 32) (keyHash : BitVec 64) (keyOrDigest : Vector Byte 16)
      (body : Vector Byte 32)
  | guarded (guard : ReadGuard)
  | verified (guard : ReadGuard) (result : Bool)
deriving DecidableEq, Repr

/-- The field accesses of `optimistic_read`, in the order it makes them, and `verify_read`. -/
inductive ReadAction where
  | readLocked
  | readVersion
  | readKeyHash
  | readDigest
  | readBody
  | readLockVersion
  | verifyRead
deriving DecidableEq, Repr

/-- One access by a reader. A guard may be verified repeatedly or dropped for a new read. -/
def ReaderPc.step (bucket : HashBucket) : ReaderPc → ReadAction → Option ReaderPc
  | .idle, .readLocked | .guarded _, .readLocked | .verified _ _, .readLocked =>
      some (if bucket.isLocked then .idle else .sawUnlocked)
  | .sawUnlocked, .readVersion => some (.haveVersion bucket.version)
  | .haveVersion version, .readKeyHash => some (.haveKeyHash version bucket.keyHash)
  | .haveKeyHash version keyHash, .readDigest =>
      some (.haveDigest version keyHash bucket.keyOrDigest)
  | .haveDigest version keyHash keyOrDigest, .readBody =>
      some (.haveBody version keyHash keyOrDigest bucket.body)
  | .haveBody version keyHash keyOrDigest body, .readLockVersion =>
      some (.guarded ⟨version, keyHash, keyOrDigest, body, bucket.lockVersion⟩)
  | .guarded guard, .verifyRead | .verified guard _, .verifyRead =>
      some (.verified guard (verifyRead guard bucket.lockVersion))
  | _, _ => none

/-- One bucket, the clients that lock it and the readers that do not. `published` lists the versions
stored by unlocking, the latest first. -/
structure LockState (ι ρ : Type) where
  bucket : HashBucket
  clients : ι → ClientPc
  readers : ρ → ReaderPc
  published : List (BitVec 32)

inductive LockLabel (ι ρ : Type) where
  | tryAcquire (client : ι) (mode : BucketMode)
  | loadLock (client : ι) (now : BitVec 32)
  | casLock (client : ι) (now : BitVec 32)
  | writeKeyHash (client : ι) (keyHash : BitVec 64)
  | writeDigest (client : ι) (keyOrDigest : Vector Byte 16)
  | writeBody (client : ι) (body : Vector Byte 32)
  | releaseLock (client : ι) (mode : BucketMode)
  | forceTakeover (now timeoutMs : BitVec 32)
  | read (reader : ρ) (action : ReadAction)
deriving DecidableEq, Repr

namespace LockState

variable {ι ρ : Type} [DecidableEq ι]

/-- No client and no reader has started. -/
def initial (bucket : HashBucket) : LockState ι ρ := ⟨bucket, fun _ => .idle, fun _ => .idle, []⟩

variable (state : LockState ι ρ)

def setClient (client : ι) (pc : ClientPc) : LockState ι ρ :=
  { state with clients := Function.update state.clients client pc }

def setLock (word : BitVec 64) : LockState ι ρ :=
  { state with bucket := { state.bucket with lockVersion := word } }

/-- Note that whoever held the lock has lost it. -/
def evictHolders : LockState ι ρ :=
  { state with clients := fun client =>
      match state.clients client with
      | .holding prev _ => .holding prev true
      | pc => pc }

/-- The successful swap of `try_acquire_lock`; over a locked word it is a takeover. -/
def acquire (client : ι) (mode : BucketMode) (oldLv : BitVec 64)
    (now : BitVec 32) : LockState ι ρ :=
  let evicted := if LockWord.isLocked oldLv then state.evictHolders else state
  (evicted.setLock (acquireWord oldLv now mode)).setClient client (.holding oldLv false)

/-- The store of `release_lock`, with the version the client acquired. -/
def release (client : ι) (mode : BucketMode) (prev : BitVec 64) : LockState ι ρ :=
  let version := LockWord.version prev
  { (state.setLock (releaseWord mode version)).setClient client .idle with
    published := (version + 1) :: state.published }

@[simp] theorem acquire_lockVersion (client : ι) (mode : BucketMode)
    (oldLv : BitVec 64) (now : BitVec 32) :
    (state.acquire client mode oldLv now).bucket.lockVersion = acquireWord oldLv now mode := rfl

@[simp] theorem release_lockVersion (client : ι) (mode : BucketMode)
    (prev : BitVec 64) :
    (state.release client mode prev).bucket.lockVersion =
      releaseWord mode (LockWord.version prev) := rfl

variable [DecidableEq ρ]

def setReader (state : LockState ι ρ) (reader : ρ) (pc : ReaderPc) : LockState ι ρ :=
  { state with readers := Function.update state.readers reader pc }

/-- One step; `none` where the label does not fit the program counter of its party. -/
def step (state : LockState ι ρ) : LockLabel ι ρ → Option (LockState ι ρ)
  | .tryAcquire client mode =>
      match state.clients client with
      | .idle => some (state.setClient client (.trying mode))
      | _ => none
  | .loadLock client now =>
      match state.clients client with
      | .trying mode =>
          let oldLv := state.bucket.lockVersion
          -- Refused: the call returns `Err(Locked)`.
          if LockWord.isLocked oldLv &&
              !isLeaseExpired (LockWord.leaseTs oldLv) now leaseTimeoutMs then
            some (state.setClient client .idle)
          else some (state.setClient client (.loaded mode oldLv))
      | _ => none
  | .casLock client now =>
      match state.clients client with
      | .loaded mode oldLv =>
          if state.bucket.lockVersion = oldLv then some (state.acquire client mode oldLv now)
          else some (state.setClient client (.trying mode))
      | _ => none
  | .writeKeyHash client keyHash =>
      match state.clients client with
      | .holding _ _ => some { state with bucket := { state.bucket with keyHash } }
      | _ => none
  | .writeDigest client keyOrDigest =>
      match state.clients client with
      | .holding _ _ => some { state with bucket := { state.bucket with keyOrDigest } }
      | _ => none
  | .writeBody client body =>
      match state.clients client with
      | .holding _ _ => some { state with bucket := { state.bucket with body } }
      | _ => none
  | .releaseLock client mode =>
      match state.clients client with
      | .holding prev _ => some (state.release client mode prev)
      | _ => none
  | .forceTakeover now timeoutMs =>
      let (bucket, result) := Model.forceTakeover state.bucket now timeoutMs
      match result with
      | .success newVersion =>
          some { state.evictHolders with
            bucket, published := LockWord.version newVersion :: state.published }
      | _ => some { state with bucket }
  | .read reader action =>
      ((state.readers reader).step state.bucket action).map (state.setReader reader)

end LockState

end Rdmas.Model
