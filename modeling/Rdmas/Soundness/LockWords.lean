import Rdmas.Model.CuckooLockFree
import Rdmas.Soundness.VersionValidation

/-! # Well-formed lock words

A dozen functions build lock words with masks and shifts of their own. Each word they store is a pack of
four fields, so the rules of the lock word hold of it whatever the bucket held before: a word is not locked
and a tombstone at once, its reserved bits are zero, and without a lock there is no lease. The calls of the
lock protocol are taken at any bucket of a table, between any calls of the writers that store whole slots.
-/

namespace Rdmas.Soundness

open Rdmas.Model LittleEndian ByteMemory Runs Function

/-- The rules of the lock word. -/
structure WellFormed (word : BitVec 64) : Prop where
  exclusive : ¬ (LockWord.isLocked word = true ∧ LockWord.isTombstone word = true)
  reserved : (word >>> 3) &&& 0x1F#64 = 0
  unleased : LockWord.isLocked word = false → LockWord.leaseTs word = 0

/-- What the calls of the lock protocol are to keep, or to change, of the fields of a bucket's word. -/
structure KeepsFields (bucket : HashBucket) : Prop where
  setLocked : ∀ leaseTsMs mode, (bucket.setLocked leaseTsMs mode).version = bucket.version
  tryAcquireLock : ∀ mode now later, (tryAcquireLock bucket mode now later).1.version = bucket.version
  markTombstone : bucket.markTombstone.version = bucket.version ∧ bucket.markTombstone.mode = bucket.mode
  unlockBucket : ∀ newVersion, (bucket.unlockBucket newVersion).mode = bucket.mode
  forceTakeover : ∀ now timeoutMs, (forceTakeover bucket now timeoutMs).1.mode = bucket.mode ∧
    ∀ word, (Model.forceTakeover bucket now timeoutMs).2 = .success word →
      (Model.forceTakeover bucket now timeoutMs).1.version = bucket.version + 1
  releaseLock : ∀ mode, (releaseLock bucket mode bucket.version).version = bucket.version + 1

/-- The calls on a single bucket. An acquirer that is interrupted after its load swaps later, if the word is
still the one it loaded. -/
inductive LockCall where
  | setLocked (leaseTsMs : BitVec 32) (mode : BucketMode)
  | unlockBucket (newVersion : BitVec 32)
  | markTombstone
  | tryAcquireLock (mode : BucketMode) (now later : BitVec 32)
  | casLock (oldLv : BitVec 64) (mode : BucketMode) (now : BitVec 32)
  | releaseLock (mode : BucketMode) (version : BitVec 32)
  | forceTakeover (now timeoutMs : BitVec 32)
  | repairAfterCrash
deriving DecidableEq, Repr

def LockCall.apply (bucket : HashBucket) : LockCall → HashBucket
  | .setLocked leaseTsMs mode => bucket.setLocked leaseTsMs mode
  | .unlockBucket newVersion => bucket.unlockBucket newVersion
  | .markTombstone => bucket.markTombstone
  | .tryAcquireLock mode now later => (Model.tryAcquireLock bucket mode now later).1
  | .casLock oldLv mode now =>
      if bucket.lockVersion = oldLv then { bucket with lockVersion := acquireWord oldLv now mode }
      else bucket
  | .releaseLock mode version => Model.releaseLock bucket mode version
  | .forceTakeover now timeoutMs => (Model.forceTakeover bucket now timeoutMs).1
  | .repairAfterCrash => Model.repairAfterCrash bucket

/-- Calls on a table. A remote insertion makes one transport operation at a time, from wherever it stands. -/
inductive WordOp where
  | bucket (idx : ℕ) (op : LockCall)
  | write (op : WriteOp)
  | insertLockFree (key : HashedKey) (value : Bytes) (mode : BucketMode)
  | insertRemote (call : InsertCall) (pc : InsertPc)

/-- The buckets, the extent region of local clients, and the free-list region of remote ones. -/
structure WordStore where
  store : ClientStore
  freeList : Memory

namespace WordStore

def bucket (state : WordStore) (idx : ℕ) : HashBucket := state.store.table.bucket idx

def setTable (state : WordStore) (table : CuckooTable) : WordStore :=
  { state with store := { state.store with table } }

def step (xxh64 : Xxh64) (state : WordStore) : WordOp → Option WordStore
  | .bucket idx op =>
      some (state.setTable (state.store.table.setBucket idx (op.apply (state.bucket idx))))
  | .write op => some { state with store := op.apply state.store }
  | .insertLockFree key value mode =>
      some (state.setTable (state.store.table.insertLockFree key value mode).1)
  | .insertRemote call pc =>
      (pc.step xxh64 call state.store.table state.freeList).map fun (table, freeList, _) =>
        { state.setTable table with freeList }

end WordStore

section Words

/-- A pack of four fields has no reserved bits. -/
theorem reserved_pack (version leaseTs : BitVec 32) (mode : BucketMode) {state : BitVec 64}
    (small : state.toNat < 4) :
    (LockWord.pack version leaseTs mode state >>> 3) &&& 0x1F#64 = 0 := by
  apply BitVec.eq_of_getLsbD_eq
  intro index bound
  simp only [BitVec.getLsbD_and, BitVec.getLsbD_ushiftRight, BitVec.ofNat_eq_ofNat, BitVec.getLsbD_zero]
  by_cases low : index < 5
  · have stateClear : state.getLsbD (3 + index) = false := Bits.getLsbD_of_lt 2 small (by omega)
    have modeClear : (mode.toU64 <<< 2).getLsbD (3 + index) = false :=
      Bits.getLsbD_of_lt 3 (LockWord.toU64_lt mode) (by omega)
    simp only [LockWord.pack, BitVec.getLsbD_or, stateClear, modeClear, BitVec.getLsbD_shiftLeft]
    simp [show 3 + index < 32 by omega, show 3 + index < 8 by omega]
  · have maskClear : (0x1F#64).getLsbD index = false := Bits.getLsbD_of_lt 5 (by decide) (by omega)
    rw [maskClear, Bool.and_false]

private theorem wellFormed_locked (version leaseTs : BitVec 32) (mode : BucketMode) :
    WellFormed (LockWord.pack version leaseTs mode 0x01#64) where
  exclusive both := by
    rw [LockWord.isTombstone_pack] at both
    exact absurd both.2 (by decide)
  reserved := reserved_pack _ _ _ (by decide)
  unleased free := by
    rw [LockWord.isLocked_pack] at free
    exact absurd free (by decide)

/-- A word without a lock and a lease, be it a tombstone or not. -/
theorem wellFormed_unlocked (version : BitVec 32) (mode : BucketMode) {state : BitVec 64}
    (small : state.toNat < 4) (free : LockWord.isLocked state = false) :
    WellFormed (LockWord.pack version 0 mode state) where
  exclusive both := by
    rw [LockWord.isLocked_pack, free] at both
    exact absurd both.1 (by decide)
  reserved := reserved_pack _ _ _ small
  unleased _ := by
    rw [LockWord.leaseTs_pack _ _ _ small]
    rfl

private theorem wellFormed_acquireWord (oldLv : BitVec 64) (now : BitVec 32) (mode : BucketMode) :
    WellFormed (acquireWord oldLv now mode) := by
  rw [acquireWord_eq]
  exact wellFormed_locked _ _ _

private theorem wellFormed_releaseWord (mode : BucketMode) (version : BitVec 32) :
    WellFormed (releaseWord mode version) := by
  rw [releaseWord_eq]
  exact wellFormed_unlocked _ _ (by decide) (by decide)

private theorem wellFormed_modeBits (mode : BucketMode) : WellFormed (mode.toU64 <<< 2) := by
  have packed : mode.toU64 <<< 2 = LockWord.pack 0 0 mode 0 := by cases mode <;> decide
  rw [packed]
  exact wellFormed_unlocked _ _ (by decide) (by decide)

private theorem wellFormed_zero : WellFormed 0 := wellFormed_modeBits .inline

theorem wellFormed_markTombstone (bucket : HashBucket) : WellFormed bucket.markTombstone.lockVersion := by
  rw [HashBucket.markTombstone_lockVersion]
  exact wellFormed_unlocked _ _ (by decide) (by decide)

end Words

section Buckets

variable {bucket : HashBucket}

/-- An unlocked bucket bears a pack of the new version and the mode it had. -/
theorem unlockBucket_lockVersion (bucket : HashBucket) (newVersion : BitVec 32) :
    (bucket.unlockBucket newVersion).lockVersion =
      LockWord.pack newVersion 0 (LockWord.mode bucket.lockVersion) 0 := by
  simp [HashBucket.unlockBucket, LockWord.mode_bit, LockWord.pack]

/-- A takeover leaves the bucket alone, or stores what a release would. -/
theorem forceTakeover_cases (bucket : HashBucket) (now timeoutMs : BitVec 32) :
    ((forceTakeover bucket now timeoutMs).1 = bucket ∧
        ∀ word, (forceTakeover bucket now timeoutMs).2 ≠ .success word) ∨
      (forceTakeover bucket now timeoutMs).1 =
        releaseLock bucket (LockWord.mode bucket.lockVersion) bucket.version := by
  cases expired : bucket.isLocked && isLeaseExpired bucket.leaseTs now timeoutMs with
  | true =>
    right
    rw [forceTakeover_expired expired]
    rfl
  | false =>
    left
    rw [forceTakeover_refused expired]
    refine ⟨rfl, fun word success => ?_⟩
    cases locked : bucket.isLocked <;> simp [locked] at success

/-- Every call on a bucket leaves a well-formed word, or the word it found. -/
theorem LockCall.lockVersion_apply (op : LockCall) :
    (op.apply bucket).lockVersion = bucket.lockVersion ∨ WellFormed (op.apply bucket).lockVersion := by
  cases op with
  | setLocked leaseTsMs mode => exact .inr (wellFormed_acquireWord bucket.lockVersion leaseTsMs mode)
  | unlockBucket newVersion =>
    right
    rw [LockCall.apply, unlockBucket_lockVersion]
    exact wellFormed_unlocked _ _ (by decide) (by decide)
  | markTombstone => exact .inr (wellFormed_markTombstone bucket)
  | tryAcquireLock mode now later =>
    simp only [LockCall.apply, Model.tryAcquireLock]
    split
    · exact .inl rfl
    · exact .inr (wellFormed_acquireWord _ _ _)
  | casLock oldLv mode now =>
    simp only [LockCall.apply]
    split
    · exact .inr (wellFormed_acquireWord _ _ _)
    · exact .inl rfl
  | releaseLock mode version => exact .inr (wellFormed_releaseWord mode version)
  | forceTakeover now timeoutMs =>
    rcases forceTakeover_cases bucket now timeoutMs with ⟨same, _⟩ | released
    · exact .inl (congrArg HashBucket.lockVersion same)
    · right
      rw [LockCall.apply, released]
      exact wellFormed_releaseWord _ _
  | repairAfterCrash => exact .inr wellFormed_zero

private theorem mode_releaseLock (mode : BucketMode) (version : BitVec 32) :
    (releaseLock bucket mode version).mode = mode := by
  change LockWord.mode (releaseWord mode version) = mode
  rw [releaseWord_eq, LockWord.mode_pack _ _ _ (by decide)]

private theorem version_releaseLock (mode : BucketMode) (version : BitVec 32) :
    (releaseLock bucket mode version).version = version + 1 :=
  version_releaseWord version mode

/-- The calls keep the fields of every word, well formed or not. -/
theorem keepsFields (bucket : HashBucket) : KeepsFields bucket where
  setLocked leaseTsMs mode := version_acquireWord bucket.lockVersion leaseTsMs mode
  tryAcquireLock mode now later := by
    rw [tryAcquireLock]
    split
    · rfl
    · exact version_acquireWord bucket.lockVersion later mode
  markTombstone := by
    rw [HashBucket.version, HashBucket.markTombstone_lockVersion, LockWord.version_pack _ _ _ (by decide)]
    refine ⟨rfl, ?_⟩
    change LockWord.mode bucket.markTombstone.lockVersion = LockWord.mode bucket.lockVersion
    rw [HashBucket.markTombstone_lockVersion, LockWord.mode_pack _ _ _ (by decide)]
  unlockBucket newVersion := by
    change LockWord.mode (bucket.unlockBucket newVersion).lockVersion = LockWord.mode bucket.lockVersion
    rw [unlockBucket_lockVersion, LockWord.mode_pack _ _ _ (by decide)]
  forceTakeover now timeoutMs := by
    rcases forceTakeover_cases bucket now timeoutMs with ⟨same, refused⟩ | released
    · exact ⟨congrArg HashBucket.mode same, fun word success => absurd success (refused word)⟩
    · rw [released]
      exact ⟨mode_releaseLock _ _, fun _ _ => version_releaseLock _ _⟩
  releaseLock mode := version_releaseLock mode bucket.version

end Buckets

/-- A call of `try_acquire_lock` that nothing interrupts is what the lock machine makes of its accesses. -/
theorem reaches_tryAcquireLock {ι ρ : Type} [DecidableEq ι] [DecidableEq ρ] {state : LockState ι ρ}
    {client : ι} (idle : state.clients client = .idle) (mode : BucketMode) (now later : BitVec 32) :
    ∃ final, Reaches LockState.step state final ∧
      final.bucket = (tryAcquireLock state.bucket mode now later).1 ∧
      (∀ prev, (tryAcquireLock state.bucket mode now later).2 = .ok prev →
        final.clients client = .holding prev false) ∧
      ∀ error, (tryAcquireLock state.bucket mode now later).2 = .error error →
        final.clients client = .idle := by
  have begins : state.step (.tryAcquire client mode) = some (state.setClient client (.trying mode)) := by
    simp only [LockState.step, idle]
  obtain ⟨trying, isTrying⟩ : ∃ trying, trying = state.setClient client (.trying mode) := ⟨_, rfl⟩
  have same : trying.bucket = state.bucket := by rw [isTrying]; rfl
  have at_ : trying.clients client = .trying mode := by
    rw [isTrying]
    exact update_self ..
  rw [← isTrying] at begins
  rw [← same]
  cases refused : LockWord.isLocked trying.bucket.lockVersion &&
      !isLeaseExpired (LockWord.leaseTs trying.bucket.lockVersion) now leaseTimeoutMs with
  | true =>
    have loads : trying.step (.loadLock client now) = some (trying.setClient client .idle) := by
      simp only [LockState.step, at_, refused, if_true]
    simp only [tryAcquireLock, refused, if_true]
    refine ⟨_, .head begins (.head loads (.refl _)), rfl, ?_, fun _ _ => update_self ..⟩
    rintro prev ⟨⟩
  | false =>
    have loads : trying.step (.loadLock client now) =
        some (trying.setClient client (.loaded mode trying.bucket.lockVersion)) := by
      simp only [LockState.step, at_, refused, Bool.false_eq_true, if_false]
    have swaps : (trying.setClient client (.loaded mode trying.bucket.lockVersion)).step
        (.casLock client later) = some (LockState.acquire
          (trying.setClient client (.loaded mode trying.bucket.lockVersion)) client mode
          trying.bucket.lockVersion later) := by
      have loaded : (trying.setClient client (.loaded mode trying.bucket.lockVersion)).clients client =
          .loaded mode trying.bucket.lockVersion := update_self ..
      simp only [LockState.step, loaded]
      exact if_pos rfl
    simp only [tryAcquireLock, refused, Bool.false_eq_true, if_false]
    refine ⟨_, .head begins (.head loads (.head swaps (.refl _))), ?_, ?_, ?_⟩
    · simp only [LockState.acquire]
      split <;> rfl
    · rintro prev ⟨⟩
      exact update_self ..
    · rintro error ⟨⟩

section Tables

variable {xxh64 : Xxh64} {state next : WordStore} {op : WordOp}

/-- All words of a table are well formed. -/
def AllWellFormed (table : CuckooTable) : Prop := ∀ idx, WellFormed (table.bucket idx).lockVersion

variable {table after : CuckooTable}

/-- A table whose words are the former ones or well formed. -/
theorem AllWellFormed.of_words (formed : AllWellFormed table)
    (words : ∀ idx, (after.bucket idx).lockVersion = (table.bucket idx).lockVersion ∨
      WellFormed (after.bucket idx).lockVersion) : AllWellFormed after := by
  intro idx
  rcases words idx with same | new
  · rw [same]
    exact formed idx
  · exact new

theorem AllWellFormed.setBucket (formed : AllWellFormed table) (idx : ℕ) {bucket : HashBucket}
    (word : bucket.lockVersion = (table.bucket idx).lockVersion ∨ WellFormed bucket.lockVersion) :
    AllWellFormed (table.setBucket idx bucket) := by
  refine formed.of_words fun query => ?_
  rcases table.bucket_setBucket_or idx query bucket with same | ⟨rfl, stored⟩
  · exact .inl (congrArg HashBucket.lockVersion same)
  · rw [stored]
    exact word

theorem AllWellFormed.write {store : ClientStore} (formed : AllWellFormed store.table) (op : WriteOp) :
    AllWellFormed (op.apply store).table := by
  refine formed.of_words fun idx => ?_
  cases op with
  | table op =>
    have effect : (op.apply store.table).1.bucket idx = store.table.bucket idx ∨ _ := op.bucket_apply idx
    rcases effect with same | ⟨entry, stored⟩ | ⟨_, _, _, buried⟩
    · exact .inl (congrArg HashBucket.lockVersion same)
    · right
      change WellFormed ((op.apply store.table).1.bucket idx).lockVersion
      rw [stored]
      exact wellFormed_modeBits entry.mode
    · right
      change WellFormed ((op.apply store.table).1.bucket idx).lockVersion
      rw [buried]
      exact wellFormed_markTombstone _
  | client call =>
    have rewrites := rewrites_insert call (memoryOf store.table store.largeObjects)
      store.table.bucketCount
    rcases rewrites.bucket idx with same | ⟨mode, word⟩
    · exact .inl (congrArg HashBucket.lockVersion same)
    · right
      change WellFormed ((ClientWriter.insert call (memoryOf store.table store.largeObjects)
        store.table.bucketCount).1.bucket idx).lockVersion
      rw [word]
      exact wellFormed_modeBits mode

theorem AllWellFormed.tryCasInsert (formed : AllWellFormed table) (key : HashedKey) (value : Bytes)
    (mode : BucketMode) (idx : ℕ) : AllWellFormed (table.tryCasInsert key value mode idx).1 := by
  simp only [CuckooTable.tryCasInsert]
  split
  · exact formed
  · split
    · refine formed.setBucket idx (.inr ?_)
      cases mode with
      | inline => exact wellFormed_modeBits .inline
      | extent => exact wellFormed_modeBits .extent
    · exact formed

theorem AllWellFormed.insertLockFree (formed : AllWellFormed table) (key : HashedKey) (value : Bytes)
    (mode : BucketMode) : AllWellFormed (table.insertLockFree key value mode).1 := by
  have first := formed.tryCasInsert key value mode (table.h1 key.hash)
  simp only [CuckooTable.insertLockFree]
  split
  · exact formed
  · split
    · exact first
    · have second := first.tryCasInsert key value mode (table.h2 key.hash)
      split
      · exact second
      · exact second

/-- One transport operation of a remote insertion: the swap stores mode bits, the last write a whole bucket
with mode bits, and the others leave the table alone. -/
theorem AllWellFormed.insertRemote (formed : AllWellFormed table) {call : InsertCall} {pc pc' : InsertPc}
    {region region' : Memory} (moved : pc.step xxh64 call table region = some (after, region', pc')) :
    AllWellFormed after := by
  cases pc with
  | reading home =>
    simp only [InsertPc.step] at moved
    split_ifs at moved
    · cases moved
      exact formed
    · split at moved <;> (cases moved; exact formed)
    · cases moved
      exact formed
  | allocating home oldLv allocation =>
    obtain ⟨_, _, same⟩ := Option.map_eq_some_iff.mp moved
    cases same
    exact formed
  | claiming home oldLv oldOffset =>
    simp only [InsertPc.step] at moved
    split at moved
    · cases moved
      refine formed.setBucket _ (.inr ?_)
      rw [InsertCall.newBucket_lockVersion]
      exact wellFormed_modeBits call.mode
    · cases moved
      exact formed
  | writing home oldOffset =>
    cases moved
    refine formed.setBucket _ (.inr ?_)
    rw [InsertCall.newBucket_lockVersion]
    exact wellFormed_modeBits call.mode
  | returned result => cases moved

theorem AllWellFormed.step (formed : AllWellFormed state.store.table)
    (taken : state.step xxh64 op = some next) : AllWellFormed next.store.table := by
  cases op with
  | bucket idx op =>
    cases taken
    exact formed.setBucket idx op.lockVersion_apply
  | write op =>
    cases taken
    exact formed.write op
  | insertLockFree key value mode =>
    cases taken
    exact formed.insertLockFree key value mode
  | insertRemote call pc =>
    obtain ⟨⟨after, freeList, pc'⟩, moved, rfl⟩ := Option.map_eq_some_iff.mp taken
    exact formed.insertRemote moved

private theorem allWellFormed_new (bucketCount maxKick : ℕ) (powerOfTwo : bucketCount.isPowerOfTwo) :
    AllWellFormed (.new bucketCount maxKick powerOfTwo) := by
  intro idx
  rw [bucket_new]
  exact wellFormed_zero

end Tables

/-- From a table of zero buckets, after any calls of the lock protocol on any of them and any calls of the
writers, every lock word is well formed; and the calls of the lock protocol keep the fields of every word
there is. -/
theorem lock_words_stay_well_formed (xxh64 : Xxh64) (bucketCount maxKick : ℕ)
    (powerOfTwo : bucketCount.isPowerOfTwo) (largeObjects : Option LargeObjectRegion)
    (freeList : Memory) (ops : List WordOp) (state : WordStore)
    (reached : run (WordStore.step xxh64) ⟨⟨.new bucketCount maxKick powerOfTwo, largeObjects⟩, freeList⟩
      ops = some state) :
    (∀ idx, WellFormed (state.bucket idx).lockVersion) ∧ ∀ bucket : HashBucket, KeepsFields bucket := by
  refine ⟨?_, keepsFields⟩
  let formed (state : WordStore) : Prop := AllWellFormed state.store.table
  have start : formed ⟨⟨.new bucketCount maxKick powerOfTwo, largeObjects⟩, freeList⟩ :=
    allWellFormed_new bucketCount maxKick powerOfTwo
  have keep : ∀ {state op next}, formed state → WordStore.step xxh64 state op = some next → formed next :=
    AllWellFormed.step
  exact run_invariant keep start reached

/-- A bucket is locked, another one buried and written over, and the lock taken over once it has expired. -/
theorem lock_words_of_two_buckets :
    let ops : List WordOp := [.bucket 0 (.tryAcquireLock .extent 5 6), .bucket 1 .markTombstone,
      .insertLockFree ⟨1, FixedBytes.zeros 16⟩ [7] .inline, .bucket 0 (.forceTakeover 500 100)]
    ∃ state, run (WordStore.step fun _ _ => 0) ⟨⟨.new 2 4 ⟨1, rfl⟩, none⟩, fun _ => 0⟩ ops = some state ∧
      (state.bucket 0).lockVersion = 0x100000004 ∧ (state.bucket 1).lockVersion = 0 ∧
      WellFormed (state.bucket 0).lockVersion ∧ WellFormed (state.bucket 1).lockVersion := by
  intro ops
  refine ⟨_, rfl, by decide +kernel, by decide +kernel, ?_⟩
  have formed := (lock_words_stay_well_formed (fun _ _ => 0) 2 4 ⟨1, rfl⟩ none (fun _ => 0) ops _ rfl).1
  exact ⟨formed 0, formed 1⟩

end Rdmas.Soundness
