import Rdmas.Math.CheckedMemory

/-! # Asynchronous replication

`control/replication.rs`: writes go to the local store at once and to a queue; a flush copies the queue to
the backup. Both copies are clipped, each at the end of its own store, while the queue keeps all the data.
A range that starts beyond its store stops the source with a panic, and so has no result here. The lag
limit is only reported, it holds nothing back.
-/

namespace Rdmas.Model

open LittleEndian ByteMemory CheckedMemory

/-- `store[offset..end].copy_from_slice(&data[..end - offset])`, where `end` is the end of the data or of
the store, whichever comes first. -/
def copyClipped (store : Memory) (length offset : ℕ) (data : Bytes) : Option Memory :=
  let stop := min (offset + data.length) length
  if stop < offset then none else some (write store offset (data.take (stop - offset)))

/-- The same copy with the sum of the source, which is one of 64-bit words. Where a build lets it wrap, the
range ends before it starts. -/
def checkedCopyClipped (store : Memory) (length offset : ℕ) (data : Bytes) : Option Memory := do
  let reach ← sum 64 offset data.length
  let stop := min reach length
  if stop < offset then none else some (write store offset (data.take (stop - offset)))

/-- The backup with its replication queue. -/
structure BackupStore where
  objects : Memory
  capacity : ℕ
  pending : List (BitVec 64 × Bytes)

namespace BackupStore

def new (capacity : ℕ) : BackupStore := ⟨fun _ => 0, capacity, []⟩

variable (store : BackupStore)

def enqueueWrite (offset : BitVec 64) (data : Bytes) : BackupStore :=
  { store with pending := store.pending ++ [(offset, data)] }

/-- The loop of a flush: entries leave the queue at its front. -/
def drain (capacity : ℕ) : Memory → List (BitVec 64 × Bytes) → Option Memory
  | objects, [] => some objects
  | objects, (offset, data) :: pending =>
      (copyClipped objects capacity offset.toNat data).bind fun objects => drain capacity objects pending

/-- Replicate all pending writes and tell how many they were. -/
def flush : Option (BackupStore × ℕ) :=
  (drain store.capacity store.objects store.pending).map fun objects =>
    ({ store with objects, pending := [] }, store.pending.length)

/-- The loop of a flush with checked arithmetic. -/
def checkedDrain (capacity : ℕ) : Memory → List (BitVec 64 × Bytes) → Option Memory
  | objects, [] => some objects
  | objects, (offset, data) :: pending => do
      let objects ← checkedCopyClipped objects capacity offset.toNat data
      checkedDrain capacity objects pending

def checkedFlush : Option (BackupStore × ℕ) :=
  (checkedDrain store.capacity store.objects store.pending).map fun objects =>
    ({ store with objects, pending := [] }, store.pending.length)

/-- Read data from the backup, clipped at its end; `none` outside is the panic of the sum. -/
def read (offset : BitVec 64) (length : ℕ) : Option (Option Bytes) := do
  let reach ← sum 64 offset.toNat length
  let stop := min reach store.capacity
  if offset.toNat ≥ store.capacity then pure none
  else pure (some (ByteMemory.read store.objects offset.toNat (stop - offset.toNat)))

def pendingCount : ℕ := store.pending.length

end BackupStore

structure ReplicationManager where
  backup : BackupStore
  maxLag : ℕ

namespace ReplicationManager

def new (backupCapacity maxLag : ℕ) : ReplicationManager := ⟨.new backupCapacity, maxLag⟩

variable (manager : ReplicationManager)

/-- Write to a local store of the given length, then queue the data for the backup. -/
def writeWithReplication (offset : BitVec 64) (data : Bytes)
    (localStore : Memory) (localLen : ℕ) : Option (ReplicationManager × Memory) :=
  (copyClipped localStore localLen offset.toNat data).map fun written =>
    ({ manager with backup := manager.backup.enqueueWrite offset data }, written)

def flushReplication : Option (ReplicationManager × ℕ) :=
  manager.backup.flush.map fun (backup, count) => ({ manager with backup }, count)

def readFromBackup (offset : BitVec 64) (length : ℕ) : Option (Option Bytes) :=
  manager.backup.read offset length

def isLagging : Bool := manager.maxLag < manager.backup.pendingCount

end ReplicationManager

end Rdmas.Model
