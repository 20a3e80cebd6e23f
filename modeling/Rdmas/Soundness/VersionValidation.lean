import Rdmas.Model.Concurrency
import Rdmas.Soundness.ClientWrite

/-! # Version validation of writes outside the lock protocol

The engine's table calls and the local client rewrite buckets without taking their locks. A stored entry
brings version 0, a tombstone keeps the version it finds. An optimistic reader tells such a change from
none by the version alone, so a change is seen exactly when that version is not the reader's.
-/

namespace Rdmas.Soundness

open Rdmas.Model LittleEndian FixedBytes Runs

/-- The calls that rewrite buckets outside the lock protocol. -/
inductive WriteOp where
  | table (op : TableOp)
  | client (call : InsertCall)
deriving DecidableEq, Repr

/-- The table, and the region that local clients allocate extents from. -/
structure ClientStore where
  table : CuckooTable
  largeObjects : Option LargeObjectRegion

/-- A local client's call on the buckets of a table. -/
def insertLocal (store : ClientStore) (call : InsertCall) : ClientStore :=
  let memory := (ClientWriter.insert call (memoryOf store.table store.largeObjects)
    store.table.bucketCount).1
  ⟨{ store.table with
      buckets := memory.buckets
      sized := (rewrites_insert call _ _).length.trans store.table.sized }, memory.largeObjects⟩

def WriteOp.apply (store : ClientStore) : WriteOp → ClientStore
  | .table op => { store with table := (op.apply store.table).1 }
  | .client call => insertLocal store call

/-- What a reader takes from a bucket. -/
def observed (bucket : HashBucket) : BitVec 64 × Vector Byte 16 × Vector Byte 32 × Bool :=
  (bucket.keyHash, bucket.keyOrDigest, bucket.body, bucket.isTombstone)

/-- The call changes what a reader takes from the bucket. -/
def Changes (idx : ℕ) (store : ClientStore) (op : WriteOp) : Prop :=
  observed ((op.apply store).table.bucket idx) ≠ observed (store.table.bucket idx)

/-- A change of the bucket is refused by `verify_read`. -/
def Visible (guard : ReadGuard) (idx : ℕ) (store : ClientStore) (op : WriteOp) : Prop :=
  Changes idx store op → verifyRead guard ((op.apply store).table.bucket idx).lockVersion = false

/-- The version that a change would leave in the bucket is not the reader's: zero for an insertion, the
present one for a deletion. -/
def Distinguishable (guard : ReadGuard) (idx : ℕ) (store : ClientStore) (op : WriteOp) : Prop :=
  Changes idx store op → match op with
    | .table (.delete _) => (store.table.bucket idx).version ≠ guard.version
    | _ => guard.version ≠ 0

section Step

variable {guard : ReadGuard} {idx : ℕ} {store : ClientStore}

private theorem verifyRead_modeBits (guard : ReadGuard) (mode : BucketMode) :
    verifyRead guard (mode.toU64 <<< 2) = false ↔ guard.version ≠ 0 := by
  have zero : LockWord.version (mode.toU64 <<< 2) = 0 := by cases mode <;> decide
  rw [verifyRead, LockWord.isLocked_modeBits, zero]
  rw [Bool.not_false, Bool.true_and, beq_eq_false_iff_ne, ne_comm]

private theorem verifyRead_markTombstone (guard : ReadGuard) (bucket : HashBucket) :
    verifyRead guard bucket.markTombstone.lockVersion = false ↔ bucket.version ≠ guard.version := by
  have free : LockWord.isLocked bucket.markTombstone.lockVersion = false := isLocked_markTombstone bucket
  have kept : LockWord.version bucket.markTombstone.lockVersion = bucket.version := by
    rw [HashBucket.markTombstone_lockVersion, LockWord.version_pack _ _ _ (by decide)]
  rw [verifyRead, free, kept]
  simp

/-- A bucket that an insertion changed bears mode bits only. -/
theorem modeBits_of_changes {op : WriteOp} (inserts : ∀ key, op ≠ .table (.delete key))
    (changes : Changes idx store op) :
    ∃ mode : BucketMode, ((op.apply store).table.bucket idx).lockVersion = mode.toU64 <<< 2 := by
  cases op with
  | table op =>
    have effect : (op.apply store.table).1.bucket idx = store.table.bucket idx ∨ _ :=
      op.bucket_apply idx
    rcases effect with same | ⟨entry, stored⟩ | ⟨key, rfl, _⟩
    · exact absurd (congrArg observed same) changes
    · exact ⟨entry.mode, congrArg HashBucket.lockVersion stored⟩
    · exact absurd rfl (inserts key)
  | client call =>
    have rewrites := rewrites_insert call (memoryOf store.table store.largeObjects)
      store.table.bucketCount
    exact (rewrites.bucket idx).resolve_left fun same => changes (congrArg observed same)

/-- A bucket that a deletion changed is a tombstone of what it was. -/
theorem markTombstone_of_changes {key : HashedKey} (changes : Changes idx store (.table (.delete key))) :
    (WriteOp.apply store (.table (.delete key))).table.bucket idx =
      (store.table.bucket idx).markTombstone := by
  have effect : (store.table.delete key).1.bucket idx = store.table.bucket idx ∨ _ :=
    delete_bucket key idx
  exact (effect.resolve_left fun same => changes (congrArg observed same)).2

private theorem visible_iff (guard : ReadGuard) (idx : ℕ) (store : ClientStore) (op : WriteOp) :
    Visible guard idx store op ↔ Distinguishable guard idx store op := by
  refine imp_congr_right fun changes => ?_
  split
  · rw [markTombstone_of_changes changes, verifyRead_markTombstone]
  · next inserts =>
      have inserting : ∀ key, op ≠ .table (.delete key) := by
        rintro key rfl
        exact inserts _ rfl
      obtain ⟨mode, word⟩ := modeBits_of_changes inserting changes
      rw [word, verifyRead_modeBits]

end Step

/-- In a run of calls outside the lock protocol, from the bucket a guard was taken of, every change of
the bucket is refused by the guard's validation exactly when every change brings another version. -/
theorem changes_visible_iff (store : ClientStore) (idx : ℕ) (guard : ReadGuard)
    (_taken : optimisticRead (store.table.bucket idx) = .ok guard) (ops : List WriteOp) :
    Throughout (fun store op => some (WriteOp.apply store op)) (Visible guard idx) store ops ↔
      Throughout (fun store op => some (WriteOp.apply store op)) (Distinguishable guard idx) store ops :=
  throughout_congr (fun _ => visible_iff guard idx _ _) (fun _ _ _ => trivial) trivial

/-- The value of a bucket that was locked and released once is overwritten: its version goes back to
zero, and the reader sees that. -/
theorem changes_visible_after_release :
    let bucket : HashBucket := ⟨releaseWord .inline 0, 2, zeros 16, zeros 32⟩
    let store : ClientStore := ⟨(CuckooTable.new 2 16 ⟨1, rfl⟩).setBucket 0 bucket, none⟩
    ∃ guard, optimisticRead bucket = .ok guard ∧
      Throughout (fun store op => some (WriteOp.apply store op)) (Visible guard 0) store
        [.client ⟨⟨4, zeros 16⟩, [9], .inline⟩, .table (.insert ⟨2, zeros 16⟩ [9] .inline)] := by
  intro bucket store
  have taken : optimisticRead (store.table.bucket 0) =
      .ok ⟨1, 2, zeros 16, zeros 32, bucket.lockVersion⟩ := by decide +kernel
  have stamped : (1 : BitVec 32) ≠ 0 := by decide
  exact ⟨_, taken, (changes_visible_iff store 0 _ taken _).mpr
    ⟨fun _ => stamped, fun _ _ => ⟨fun _ => stamped, fun _ _ => trivial⟩⟩⟩

/-- A value is overwritten, or its key deleted; the bucket's version is still the reader's. -/
theorem changes_unseen_by_reader :
    let store : ClientStore := ⟨runTable (CuckooTable.new 2 16 ⟨1, rfl⟩)
      [.insert ⟨2, zeros 16⟩ [7] .inline], none⟩
    ∃ guard, optimisticRead (store.table.bucket 0) = .ok guard ∧
      let overwritten := WriteOp.apply store (.table (.insert ⟨2, zeros 16⟩ [9] .inline))
      let deleted := WriteOp.apply store (.table (.delete ⟨2, zeros 16⟩))
      (overwritten.table.bucket 0).body ≠ (store.table.bucket 0).body ∧
        verifyRead guard (overwritten.table.bucket 0).lockVersion = true ∧
        (deleted.table.bucket 0).isTombstone ≠ (store.table.bucket 0).isTombstone ∧
        verifyRead guard (deleted.table.bucket 0).lockVersion = true := by
  intro store
  have taken : optimisticRead (store.table.bucket 0) =
      .ok ⟨0, 2, zeros 16, CuckooTable.packBody [7] .inline, 0⟩ := by decide +kernel
  refine ⟨_, taken, ?_⟩
  decide +kernel

end Rdmas.Soundness
