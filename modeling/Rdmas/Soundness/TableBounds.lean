import Rdmas.Model.BucketAccess
import Rdmas.Soundness.ClientWrite

/-! # Bucket indices

The programs over the bucket array compute what the model of each operation does. From two buckets on every
index they name is a home of some hash, and a home is below the bucket count. A table of one bucket, which
`CuckooTable::new` accepts, has its second home beyond the array.
-/

namespace Rdmas.Soundness

open Rdmas.Model LittleEndian FixedBytes SlotProgram Runs CuckooTable

section Computes

variable (table : CuckooTable) (key : HashedKey)

private theorem exec_find : exec .zeroed table.buckets
      (firstThat (HashBucket.bears key) (CuckooTable.homes table.bucketCount key)) =
    (table.buckets, (table.findKeyIdx key).map fun idx => (idx, table.bucket idx)) :=
  exec_firstThat _ _

private theorem exec_free : exec .zeroed table.buckets
      (firstThat HashBucket.isFree (CuckooTable.homes table.bucketCount key)) =
    (table.buckets, ([table.h1 key.hash, table.h2 key.hash].find? fun idx =>
      (table.bucket idx).isFree).map fun idx => (idx, table.bucket idx)) :=
  exec_firstThat _ _

theorem exec_lookupProgram : exec .zeroed table.buckets (lookupProgram table.bucketCount key) =
    (table.buckets, table.lookup key) := by
  rw [lookupProgram, exec_andThen, exec_find, exec, Option.map_map]
  rfl

theorem exec_deleteProgram : exec .zeroed table.buckets (deleteProgram table.bucketCount key) =
    ((table.delete key).1.buckets, (table.delete key).2) := by
  rw [deleteProgram, exec_andThen, exec_find, CuckooTable.delete]
  cases table.findKeyIdx key <;> rfl

private theorem exec_kickChainProgram (kicks curIdx : ℕ) (cur : Entry) :
    exec .zeroed table.buckets (kickChainProgram table.bucketCount kicks curIdx cur) =
      ((table.kickChain kicks curIdx cur).1.buckets, (table.kickChain kicks curIdx cur).2) := by
  induction kicks generalizing table curIdx cur with
  | zero => rfl
  | succ kicks ih =>
    simp only [CuckooTable.kickChain]
    change exec .zeroed (table.writeSlot curIdx cur).buckets
      (if ((table.writeSlot curIdx cur).bucket
          (table.altIdx curIdx (table.bucket curIdx).toEntry)).isFree then
        .write (table.altIdx curIdx (table.bucket curIdx).toEntry) (table.bucket curIdx).toEntry.toBucket
          (.done (.ok ()))
      else kickChainProgram table.bucketCount kicks
        (table.altIdx curIdx (table.bucket curIdx).toEntry) (table.bucket curIdx).toEntry) = _
    split
    · rfl
    · exact ih (table.writeSlot curIdx cur) _ _

private theorem exec_insertRawProgram (entry : Entry) :
    exec .zeroed table.buckets
        (insertRawProgram table.bucketCount table.maxKick entry) =
      ((table.insertRaw entry).1.buckets, (table.insertRaw entry).2) := by
  rw [insertRawProgram, exec_andThen, exec_find, CuckooTable.insertRaw, CuckooTable.findKeyIdx]
  cases [table.h1 entry.key.hash, table.h2 entry.key.hash].find? (table.answers entry.key) with
  | some idx => rfl
  | none =>
    dsimp only [Option.map_none]
    rw [exec_andThen, exec_free]
    cases [table.h1 entry.key.hash, table.h2 entry.key.hash].find? fun idx => (table.bucket idx).isFree with
    | some idx => rfl
    | none => exact exec_kickChainProgram table _ _ _

private theorem exec_insertProgram (value : Bytes) (mode : BucketMode) :
    exec .zeroed table.buckets
        (insertProgram table.bucketCount table.maxKick key value mode) =
      ((table.insert key value mode).1.buckets, (table.insert key value mode).2) := by
  rw [insertProgram, CuckooTable.insert]
  split
  · rfl
  · exact exec_insertRawProgram table _

private theorem exec_insertExtentProgram (offset length : BitVec 64) :
    exec .zeroed table.buckets
        (insertExtentProgram table.bucketCount table.maxKick key offset length) =
      ((table.insertExtent key offset length).1.buckets, (table.insertExtent key offset length).2) := by
  rw [insertExtentProgram, CuckooTable.insertExtent]
  split
  · rfl
  · exact exec_insertRawProgram table _

private theorem exec_tryReadBucketProgram (idx : ℕ) :
    exec .zeroed table.buckets (tryReadBucketProgram key idx) =
      (table.buckets, table.tryReadBucket key idx) := rfl

theorem exec_getFastProgram :
    exec .zeroed table.buckets (getFastProgram table.bucketCount key) =
      (table.buckets, table.getFast key) := by
  rw [getFastProgram, exec_andThen, exec_tryReadBucketProgram, CuckooTable.getFast,
    show homeOne table.bucketCount key.hash = table.h1 key.hash from rfl]
  cases table.tryReadBucket key (table.h1 key.hash) <;> rfl

theorem exec_lookupLockFreeProgram :
    exec .zeroed table.buckets (lookupLockFreeProgram table.bucketCount key) =
      (table.buckets, table.lookupLockFree key) := by
  simp only [lookupLockFreeProgram, exec, CuckooTable.lookupLockFree, table.sized]
  change exec _ table.buckets (if !(table.bucket (table.h1 key.hash % table.bucketCount)).isLocked &&
      (table.bucket (table.h1 key.hash % table.bucketCount)).matchesKey key.hash key.digest then _
    else .read (table.h2 key.hash % table.bucketCount) fun b2 =>
      if !b2.isLocked && b2.matchesKey key.hash key.digest then _ else _) = _
  split
  · rfl
  · rw [exec]
    change exec _ table.buckets (if !(table.bucket (table.h2 key.hash % table.bucketCount)).isLocked &&
        (table.bucket (table.h2 key.hash % table.bucketCount)).matchesKey key.hash key.digest then _
      else _) = _
    split <;> rfl

private theorem exec_tryCasInsertProgram (value : Bytes) (mode : BucketMode) (idx : ℕ) :
    exec .zeroed table.buckets (tryCasInsertProgram key value mode idx) =
      ((table.tryCasInsert key value mode idx).1.buckets, (table.tryCasInsert key value mode idx).2) := by
  simp only [tryCasInsertProgram, exec, CuckooTable.tryCasInsert]
  change exec .zeroed table.buckets (if (table.bucket idx).isLocked then _ else
    if (table.bucket idx).isEmpty || (table.bucket idx).isTombstone then _ else _) = _
  split
  · rfl
  · split <;> rfl

private theorem exec_insertLockFreeProgram (value : Bytes) (mode : BucketMode) :
    exec .zeroed table.buckets
        (insertLockFreeProgram table.bucketCount key value mode) =
      ((table.insertLockFree key value mode).1.buckets, (table.insertLockFree key value mode).2) := by
  rw [insertLockFreeProgram, CuckooTable.insertLockFree]
  split
  · rfl
  · rw [exec_andThen, exec_tryCasInsertProgram, show homeOne table.bucketCount key.hash = table.h1 key.hash
      from rfl, show homeTwo table.bucketCount key.hash = table.h2 key.hash from rfl]
    obtain ⟨first, taken⟩ := table.tryCasInsert key value mode (table.h1 key.hash)
    cases taken with
    | true => rfl
    | false =>
      simp only [Bool.false_eq_true, if_false]
      rw [exec_andThen, exec_tryCasInsertProgram]
      obtain ⟨second, taken⟩ := first.tryCasInsert key value mode (table.h2 key.hash)
      cases taken <;> rfl

end Computes

section ClientComputes

variable (call : InsertCall) (memory : ClientMemory)

/-- What a client's call leaves behind, taken apart. -/
def parts (outcome : ClientMemory × Except RdmaError α) :
    List HashBucket × Option LargeObjectRegion × Except RdmaError α :=
  (outcome.1.buckets, outcome.1.largeObjects, outcome.2)

/-- A client's allocation leaves the buckets and is the one of the region. -/
theorem allocate_eq (value : Bytes) :
    memory.allocate value =
      (⟨memory.buckets, (allocateIn memory.largeObjects value).1⟩, (allocateIn memory.largeObjects value).2) := by
  obtain ⟨buckets, largeObjects⟩ := memory
  cases largeObjects with
  | none => rfl
  | some region =>
    simp only [ClientMemory.allocate, allocateIn]
    obtain ⟨after, offset⟩ := region.allocate value
    cases offset <;> rfl

private theorem exec_tryInsertAtProgram (idx : ℕ) :
    exec .zeroed memory.buckets (ClientWriter.tryInsertAtProgram call memory.largeObjects idx) =
      parts (ClientWriter.tryInsertAt call memory idx) := by
  simp only [ClientWriter.tryInsertAtProgram, exec, ClientWriter.tryInsertAt, allocate_eq]
  change exec _ memory.buckets (if (memory.bucket idx).isLocked then _ else
    if (memory.bucket idx).isEmpty || (memory.bucket idx).isTombstone then _ else _) = _
  split
  · rfl
  · split
    · cases call.mode with
      | inline => rfl
      | extent =>
        obtain ⟨after, result⟩ := allocateIn memory.largeObjects call.value
        cases result <;> rfl
    · rfl

private theorem exec_writeToBucketInternalProgram (idx : ℕ) :
    exec .zeroed memory.buckets (ClientWriter.writeToBucketInternalProgram call memory.largeObjects idx) =
      parts (ClientWriter.writeToBucketInternal call memory idx) := by
  simp only [ClientWriter.writeToBucketInternalProgram, exec, ClientWriter.writeToBucketInternal, allocate_eq]
  obtain ⟨key, value, mode⟩ := call
  cases mode with
  | inline => rfl
  | extent =>
    simp only [exec, ClientMemory.setBucket]
    obtain ⟨after, result⟩ := allocateIn memory.largeObjects value
    cases result <;> rfl

private theorem exec_clientKickChainProgram (bucketCount kicks curIdx : ℕ) :
    exec .zeroed memory.buckets
        (ClientWriter.kickChainProgram bucketCount kicks memory.largeObjects curIdx call) =
      parts (ClientWriter.kickChain bucketCount kicks memory curIdx call) := by
  induction kicks generalizing memory curIdx call with
  | zero => rfl
  | succ kicks ih =>
    have slot : ∀ (memory : ClientMemory) idx,
      memory.buckets.getD idx HashBucket.zeroed = memory.bucket idx := fun _ _ => rfl
    rw [ClientWriter.kickChainProgram, exec, ClientWriter.kickChain]
    dsimp only [homeOne, homeTwo]
    rw [slot]
    generalize memory.bucket curIdx = occupant
    generalize (if curIdx = _ then _ else _ : ℕ) = altIdx
    split
    · rfl
    split
    · rfl
    rw [exec_andThen, exec_writeToBucketInternalProgram]
    obtain ⟨written, result⟩ := ClientWriter.writeToBucketInternal call memory curIdx
    cases result with
    | error error => rfl
    | ok _ =>
      dsimp only [parts]
      rw [exec, slot]
      split
      · rw [exec_andThen, exec_writeToBucketInternalProgram]
        obtain ⟨moved, result⟩ := ClientWriter.writeToBucketInternal
          ⟨⟨occupant.keyHash, occupant.keyOrDigest⟩, occupant.inlineValue.toList, .inline⟩ written altIdx
        cases result <;> rfl
      · exact ih _ written altIdx

theorem exec_clientInsertProgram (bucketCount : ℕ) :
    exec .zeroed memory.buckets (ClientWriter.insertProgram bucketCount call memory.largeObjects) =
      parts (ClientWriter.insert call memory bucketCount) := by
  simp only [ClientWriter.insertProgram, ClientWriter.insert, homeOne, homeTwo]
  rw [exec_andThen, exec_tryInsertAtProgram]
  obtain ⟨first, result⟩ := ClientWriter.tryInsertAt call memory (call.key.hash.toNat % bucketCount)
  rcases result with error | taken
  · rfl
  cases taken with
  | true => rfl
  | false =>
    simp only [parts]
    rw [exec_andThen, exec_tryInsertAtProgram]
    obtain ⟨second, result⟩ := ClientWriter.tryInsertAt call first
      (((call.key.hash >>> 32).toNat % bucketCount) ||| 1)
    rcases result with error | taken
    · rfl
    cases taken with
    | true => rfl
    | false => exact exec_clientKickChainProgram call second _ _ _

end ClientComputes

section Homes

variable {bucketCount : ℕ} (powerOfTwo : bucketCount.isPowerOfTwo)

include powerOfTwo

theorem homeOne_lt (hash : BitVec 64) : homeOne bucketCount hash < bucketCount :=
  (CuckooTable.new bucketCount 0 powerOfTwo).h1_lt hash

theorem homeTwo_lt (two : 2 ≤ bucketCount) (hash : BitVec 64) : homeTwo bucketCount hash < bucketCount :=
  (CuckooTable.new bucketCount 0 powerOfTwo).h2_lt two hash

end Homes

section Bounded

variable {bucketCount : ℕ} (one : ∀ hash, homeOne bucketCount hash < bucketCount)
variable (two : ∀ hash, homeTwo bucketCount hash < bucketCount)

include one two

private theorem within_homes (test : HashBucket → Bool) (key : HashedKey) :
    Within bucketCount (fun found => ∀ item ∈ found, item.1 < bucketCount)
      (firstThat test (CuckooTable.homes bucketCount key)) := by
  refine within_firstThat test fun index member => ?_
  rcases List.mem_cons.mp member with rfl | later
  · exact one _
  · rw [List.mem_singleton.mp later]
    exact two _

private theorem alternate_lt (curIdx : ℕ) (hash : BitVec 64) :
    (if curIdx = homeOne bucketCount hash then homeTwo bucketCount hash else homeOne bucketCount hash) <
      bucketCount := by
  split
  · exact two hash
  · exact one hash

theorem within_lookupProgram (key : HashedKey) :
    Within bucketCount (fun _ => True) (lookupProgram bucketCount key) :=
  (within_homes one two _ key).andThen fun _ _ => trivial

theorem within_deleteProgram (key : HashedKey) :
    Within bucketCount (fun _ => True) (deleteProgram bucketCount key) := by
  refine (within_homes one two _ key).andThen fun found inside => ?_
  cases found with
  | none => trivial
  | some item => exact ⟨inside item rfl, trivial⟩

/-- Every slot of a chain is a home of the occupant before it. -/
theorem within_kickChainProgram (kicks : ℕ) {curIdx : ℕ} (start : curIdx < bucketCount) (cur : Entry) :
    Within bucketCount (fun _ => True) (kickChainProgram bucketCount kicks curIdx cur) := by
  induction kicks generalizing curIdx cur with
  | zero => trivial
  | succ kicks ih =>
    refine ⟨start, fun bucket => ⟨start, ?_⟩⟩
    have inside := alternate_lt one two curIdx bucket.toEntry.key.hash
    refine ⟨inside, fun alternate => ?_⟩
    dsimp only
    split
    · exact ⟨inside, trivial⟩
    · exact ih inside _

private theorem within_insertRawProgram (maxKick : ℕ) (entry : Entry) :
    Within bucketCount (fun _ => True) (insertRawProgram bucketCount maxKick entry) := by
  refine (within_homes one two _ entry.key).andThen fun existing inside => ?_
  cases existing with
  | some item => exact ⟨inside item rfl, trivial⟩
  | none =>
    refine (within_homes one two _ entry.key).andThen fun free inside => ?_
    cases free with
    | some item => exact ⟨inside item rfl, trivial⟩
    | none => exact within_kickChainProgram one two maxKick (one _) entry

private theorem within_insertProgram (maxKick : ℕ) (key : HashedKey) (value : Bytes) (mode : BucketMode) :
    Within bucketCount (fun _ => True) (insertProgram bucketCount maxKick key value mode) := by
  rw [insertProgram]
  split
  · trivial
  · exact within_insertRawProgram one two maxKick _

private theorem within_insertExtentProgram (maxKick : ℕ) (key : HashedKey) (offset length : BitVec 64) :
    Within bucketCount (fun _ => True)
      (insertExtentProgram bucketCount maxKick key offset length) := by
  rw [insertExtentProgram]
  split
  · trivial
  · exact within_insertRawProgram one two maxKick _

theorem within_getFastProgram (key : HashedKey) :
    Within bucketCount (fun _ => True) (getFastProgram bucketCount key) := by
  have reads : ∀ idx < bucketCount,
      Within bucketCount (fun _ => True) (tryReadBucketProgram key idx) :=
    fun idx inside => ⟨inside, fun _ => trivial⟩
  refine (reads _ (one _)).andThen fun result _ => ?_
  cases result with
  | some found => trivial
  | none => exact reads _ (two _)

omit two in
/-- The reduced indices of the lock-free lookup are in range in any table. -/
theorem within_lookupLockFreeProgram (key : HashedKey) :
    Within bucketCount (fun _ => True) (lookupLockFreeProgram bucketCount key) := by
  have positive : 0 < bucketCount := Nat.zero_lt_of_lt (one 0)
  refine ⟨Nat.mod_lt _ positive, fun b1 => ?_⟩
  dsimp only
  split
  · trivial
  · refine ⟨Nat.mod_lt _ positive, fun b2 => ?_⟩
    dsimp only
    split <;> trivial

private theorem within_insertLockFreeProgram (key : HashedKey) (value : Bytes) (mode : BucketMode) :
    Within bucketCount (fun _ => True) (insertLockFreeProgram bucketCount key value mode) := by
  have takes : ∀ idx < bucketCount,
      Within bucketCount (fun _ => True) (tryCasInsertProgram key value mode idx) := by
    intro idx inside
    refine ⟨inside, fun bucket => ?_⟩
    dsimp only
    split
    · trivial
    · split
      · exact ⟨inside, trivial⟩
      · trivial
  rw [insertLockFreeProgram]
  split
  · trivial
  · refine (takes _ (one _)).andThen fun first _ => ?_
    split
    · trivial
    · refine (takes _ (two _)).andThen fun second _ => ?_
      split <;> trivial

end Bounded

section ClientBounded

variable {bucketCount : ℕ} {call : InsertCall} {largeObjects : Option LargeObjectRegion} {idx : ℕ}

private theorem within_tryInsertAtProgram (inside : idx < bucketCount) :
    Within bucketCount (fun _ => True) (ClientWriter.tryInsertAtProgram call largeObjects idx) := by
  refine ⟨inside, fun bucket => ?_⟩
  dsimp only
  split
  · trivial
  · split
    · cases call.mode with
      | inline => exact ⟨inside, trivial⟩
      | extent =>
        obtain ⟨after, result⟩ := allocateIn largeObjects call.value
        cases result with
        | error error => trivial
        | ok offset => exact ⟨inside, trivial⟩
    · trivial

private theorem within_writeToBucketInternalProgram (inside : idx < bucketCount) :
    Within bucketCount (fun _ => True) (ClientWriter.writeToBucketInternalProgram call largeObjects idx) := by
  refine ⟨inside, fun bucket => ?_⟩
  obtain ⟨key, value, mode⟩ := call
  cases mode with
  | inline => exact ⟨inside, trivial⟩
  | extent =>
    refine ⟨inside, ?_⟩
    obtain ⟨after, result⟩ := allocateIn largeObjects value
    cases result with
    | error error => trivial
    | ok offset => exact ⟨inside, trivial⟩

variable (one : ∀ hash, homeOne bucketCount hash < bucketCount)
variable (two : ∀ hash, homeTwo bucketCount hash < bucketCount)

include one two

private theorem within_clientKickChainProgram (kicks : ℕ) (inside : idx < bucketCount) :
    Within bucketCount (fun _ => True)
      (ClientWriter.kickChainProgram bucketCount kicks largeObjects idx call) := by
  induction kicks generalizing largeObjects idx call with
  | zero => trivial
  | succ kicks ih =>
    refine ⟨inside, fun occupant => ?_⟩
    dsimp only
    split
    · trivial
    split
    · trivial
    refine (within_writeToBucketInternalProgram inside).andThen fun written _ => ?_
    obtain ⟨after, result⟩ := written
    cases result with
    | error error => trivial
    | ok _ =>
      have onward := alternate_lt one two idx occupant.keyHash
      refine ⟨onward, fun alternate => ?_⟩
      dsimp only
      split
      · refine (within_writeToBucketInternalProgram onward).andThen fun moved _ => ?_
        obtain ⟨after, result⟩ := moved
        cases result <;> trivial
      · exact ih onward

theorem within_clientInsertProgram :
    Within bucketCount (fun _ => True) (ClientWriter.insertProgram bucketCount call largeObjects) := by
  refine (within_tryInsertAtProgram (one _)).andThen fun first _ => ?_
  obtain ⟨after, result⟩ := first
  rcases result with error | taken
  · trivial
  cases taken with
  | true => trivial
  | false =>
    refine (within_tryInsertAtProgram (two _)).andThen fun second _ => ?_
    obtain ⟨after, result⟩ := second
    rcases result with error | taken
    · trivial
    cases taken with
    | true => trivial
    | false => exact within_clientKickChainProgram one two _ (one _)

end ClientBounded

/-- The operations on a bucket array. -/
inductive BucketOp where
  | insert (key : HashedKey) (value : Bytes) (mode : BucketMode)
  | insertExtent (key : HashedKey) (offset length : BitVec 64)
  | delete (key : HashedKey)
  | insertLockFree (key : HashedKey) (value : Bytes) (mode : BucketMode)
  | lookup (key : HashedKey)
  | lookupLockFree (key : HashedKey)
  | getFast (key : HashedKey)
  | clientInsert (call : InsertCall)
deriving DecidableEq, Repr

/-- The program of an operation, which hands on the extent region. -/
def BucketOp.program (bucketCount maxKick : ℕ) (largeObjects : Option LargeObjectRegion) :
    BucketOp → BucketProgram (Option LargeObjectRegion)
  | .insert key value mode =>
      (insertProgram bucketCount maxKick key value mode).andThen fun _ => .done largeObjects
  | .insertExtent key offset length =>
      (insertExtentProgram bucketCount maxKick key offset length).andThen
        fun _ => .done largeObjects
  | .delete key => (deleteProgram bucketCount key).andThen fun _ => .done largeObjects
  | .insertLockFree key value mode =>
      (insertLockFreeProgram bucketCount key value mode).andThen fun _ => .done largeObjects
  | .lookup key => (lookupProgram bucketCount key).andThen fun _ => .done largeObjects
  | .lookupLockFree key =>
      (lookupLockFreeProgram bucketCount key).andThen fun _ => .done largeObjects
  | .getFast key => (getFastProgram bucketCount key).andThen fun _ => .done largeObjects
  | .clientInsert call =>
      (ClientWriter.insertProgram bucketCount call largeObjects).andThen fun result => .done result.1

/-- What an operation makes of a table and of the extent region, in the model of the operations. -/
def BucketOp.apply (table : CuckooTable) (largeObjects : Option LargeObjectRegion) :
    BucketOp → List HashBucket × Option LargeObjectRegion
  | .insert key value mode => ((table.insert key value mode).1.buckets, largeObjects)
  | .insertExtent key offset length => ((table.insertExtent key offset length).1.buckets, largeObjects)
  | .delete key => ((table.delete key).1.buckets, largeObjects)
  | .insertLockFree key value mode => ((table.insertLockFree key value mode).1.buckets, largeObjects)
  | .lookup _ => (table.buckets, largeObjects)
  | .lookupLockFree _ => (table.buckets, largeObjects)
  | .getFast _ => (table.buckets, largeObjects)
  | .clientInsert call =>
      let memory := (ClientWriter.insert call (memoryOf table largeObjects) table.bucketCount).1
      (memory.buckets, memory.largeObjects)

/-- The programs compute what the model of the operations says. -/
theorem exec_program (table : CuckooTable) (largeObjects : Option LargeObjectRegion) (op : BucketOp) :
    exec .zeroed table.buckets (op.program table.bucketCount table.maxKick largeObjects) =
      op.apply table largeObjects := by
  cases op with
  | insert key value mode => rw [BucketOp.program, exec_andThen, exec_insertProgram]; rfl
  | insertExtent key offset length => rw [BucketOp.program, exec_andThen, exec_insertExtentProgram]; rfl
  | delete key => rw [BucketOp.program, exec_andThen, exec_deleteProgram]; rfl
  | insertLockFree key value mode => rw [BucketOp.program, exec_andThen, exec_insertLockFreeProgram]; rfl
  | lookup key => rw [BucketOp.program, exec_andThen, exec_lookupProgram]; rfl
  | lookupLockFree key => rw [BucketOp.program, exec_andThen, exec_lookupLockFreeProgram]; rfl
  | getFast key => rw [BucketOp.program, exec_andThen, exec_getFastProgram]; rfl
  | clientInsert call =>
    have computes := exec_clientInsertProgram call (memoryOf table largeObjects) table.bucketCount
    rw [BucketOp.program, exec_andThen]
    exact congrArg (fun final => (final.1, final.2.1)) computes

/-- From two buckets on, an operation names bucket indices only. -/
theorem within_program {bucketCount : ℕ} (powerOfTwo : bucketCount.isPowerOfTwo)
    (many : 2 ≤ bucketCount) (maxKick : ℕ) (largeObjects : Option LargeObjectRegion) (op : BucketOp) :
    Within bucketCount (fun _ => True) (op.program bucketCount maxKick largeObjects) := by
  have one := homeOne_lt powerOfTwo
  have two := homeTwo_lt powerOfTwo many
  cases op with
  | insert key value mode => exact (within_insertProgram one two _ key value mode).andThen fun _ _ => trivial
  | insertExtent key offset length =>
    exact (within_insertExtentProgram one two _ key offset length).andThen fun _ _ => trivial
  | delete key => exact (within_deleteProgram one two key).andThen fun _ _ => trivial
  | insertLockFree key value mode =>
    exact (within_insertLockFreeProgram one two key value mode).andThen fun _ _ => trivial
  | lookup key => exact (within_lookupProgram one two key).andThen fun _ _ => trivial
  | lookupLockFree key => exact (within_lookupLockFreeProgram one key).andThen fun _ _ => trivial
  | getFast key => exact (within_getFastProgram one two key).andThen fun _ _ => trivial
  | clientInsert call => exact (within_clientInsertProgram one two).andThen fun _ _ => trivial

/-- A bucket array and the extent region of its clients. -/
structure BucketMemory where
  buckets : List HashBucket
  largeObjects : Option LargeObjectRegion

namespace BucketMemory

/-- An access beyond the array ends the run: with a panic, or in undefined behaviour behind a pointer. -/
def step (bucketCount maxKick : ℕ) (memory : BucketMemory) (op : BucketOp) : Option BucketMemory :=
  (checked memory.buckets (op.program bucketCount maxKick memory.largeObjects)).map fun final =>
    ⟨final.1, final.2⟩

/-- The operation touches buckets of the table only. -/
def InBounds (bucketCount maxKick : ℕ) (memory : BucketMemory) (op : BucketOp) : Prop :=
  ∀ index ∈ accesses .zeroed memory.buckets (op.program bucketCount maxKick memory.largeObjects),
    index < bucketCount

end BucketMemory

/-- From two buckets on, a step does to the buckets of a table what the operation does to the table. -/
theorem bucketMemory_step (table : CuckooTable) (many : 2 ≤ table.bucketCount)
    (largeObjects : Option LargeObjectRegion) (op : BucketOp) :
    BucketMemory.step table.bucketCount table.maxKick ⟨table.buckets, largeObjects⟩ op =
      some ⟨(op.apply table largeObjects).1, (op.apply table largeObjects).2⟩ := by
  have within := within_program table.powerOfTwo many table.maxKick largeObjects op
  rw [← table.sized] at within
  rw [BucketMemory.step, ← table.sized, within.checked_eq .zeroed, table.sized, exec_program]
  rfl

/-- No operation of any run touches a bucket index at or beyond the bucket count exactly if there are at
least two buckets. -/
theorem table_indices_in_bounds_iff {bucketCount : ℕ} (powerOfTwo : bucketCount.isPowerOfTwo) :
    (∀ (maxKick : ℕ) (largeObjects : Option LargeObjectRegion) (ops : List BucketOp),
      Throughout (BucketMemory.step bucketCount maxKick) (BucketMemory.InBounds bucketCount maxKick)
        ⟨(CuckooTable.new bucketCount maxKick powerOfTwo).buckets, largeObjects⟩ ops) ↔
      2 ≤ bucketCount := by
  constructor
  · intro always
    by_contra few
    obtain ⟨exponent, count⟩ := powerOfTwo
    have single : bucketCount = 1 := by
      have positive := Nat.two_pow_pos exponent
      omega
    subst single
    have inside := (always 0 none [.lookup ⟨1, zeros 16⟩]).1
    have second : 1 ∈ accesses .zeroed (List.replicate 1 HashBucket.zeroed)
        (BucketOp.program 1 0 none (.lookup ⟨1, zeros 16⟩)) := by
      decide
    exact absurd (inside 1 second) (by decide)
  · intro many maxKick largeObjects ops
    have inside : ∀ {memory : BucketMemory} {op : BucketOp}, True →
        BucketMemory.InBounds bucketCount maxKick memory op ∧
          ∀ next, BucketMemory.step bucketCount maxKick memory op = some next → True :=
      fun _ => ⟨(within_program powerOfTwo many maxKick _ _).accesses_lt, fun _ _ => trivial⟩
    exact throughout_of_invariant inside trivial

/-- On two buckets, a lookup behind two insertions stays inside, and the run goes through. -/
theorem two_buckets_in_bounds :
    let start : BucketMemory := ⟨(CuckooTable.new 2 16 ⟨1, rfl⟩).buckets, none⟩
    let ops : List BucketOp := [.insertLockFree ⟨2, zeros 16⟩ [7] .inline,
      .insert ⟨4, zeros 16⟩ [8] .inline, .lookup ⟨4, zeros 16⟩]
    (run (BucketMemory.step 2 16) start ops).isSome = true ∧
      Throughout (BucketMemory.step 2 16) (BucketMemory.InBounds 2 16) start ops :=
  ⟨by decide +kernel, (table_indices_in_bounds_iff ⟨1, rfl⟩).mpr le_rfl 16 none _⟩

/-- A table of one bucket. The first lock-free insertion takes the bucket; the second finds it taken and
goes on to the slot behind it, through a pointer. -/
theorem one_bucket_out_of_bounds : ∃ memory,
    BucketMemory.step 1 16 ⟨(CuckooTable.new 1 16 ⟨0, rfl⟩).buckets, none⟩
        (.insertLockFree ⟨1, zeros 16⟩ [7] .inline) = some memory ∧
      accesses .zeroed memory.buckets
        (BucketOp.program 1 16 memory.largeObjects (.insertLockFree ⟨2, zeros 16⟩ [8] .inline)) = [0, 1, 1] ∧
      ¬ BucketMemory.InBounds 1 16 memory (.insertLockFree ⟨2, zeros 16⟩ [8] .inline) ∧
      BucketMemory.step 1 16 memory (.insertLockFree ⟨2, zeros 16⟩ [8] .inline) = none :=
  ⟨_, rfl, by decide, fun inside => absurd (inside 1 (by decide)) (by decide), rfl⟩

end Rdmas.Soundness
