import Rdmas.Soundness.ClientWrite
import Rdmas.Soundness.ExtentRecords
import Rdmas.Soundness.RemoteRoundTrip

/-! # Client writes as overwrites

A successful local insertion adds one entry to the live ones and takes none away: it never looks for an
earlier entry of its key. Reads are determined by the live entries, so the write behaves as an overwrite
exactly when there was nothing to overwrite. The remote write path takes the first free home in the same
way; remote reads moreover see through tombstones, which a write may replace.
-/

namespace Rdmas.Soundness

open Rdmas.Model LittleEndian ByteMemory FixedBytes ClientReader Runs ClientWriter

/-- What a successful write stores for a call, and the region it leaves. Behind the reference an Extent
body keeps what the slot held before. -/
inductive Stores (call : InsertCall) :
    Option LargeObjectRegion → Entry → Option LargeObjectRegion → Prop where
  | inline {largeObjects : Option LargeObjectRegion} (mode : call.mode = .inline) :
      Stores call largeObjects (InlineEntry call) largeObjects
  | extent {region next : LargeObjectRegion} {offset : ℕ} {body : Vector Byte 32}
      (mode : call.mode = .extent) (allocated : region.allocate call.value = (next, some offset))
      (reference : (HashBucket.extentRefOf body).1 = BitVec.ofNat 64 offset) :
      Stores call (some region) ⟨call.key, body, .extent⟩ (some next)

/-- What a write of a call to a slot stores, and the region it leaves; none if the extent of the call
cannot be allocated. -/
def slotWrite (table : CuckooTable) (largeObjects : Option LargeObjectRegion) (call : InsertCall)
    (idx : ℕ) : Option (Entry × Option LargeObjectRegion) :=
  match call.mode with
  | .inline => some (InlineEntry call, largeObjects)
  | .extent =>
    match (memoryOf table largeObjects).allocate call.value with
    | (_, .error _) => none
    | (memory, .ok offset) =>
        let bucket := (table.bucket idx).setExtentRef (BitVec.ofNat 64 offset)
          (BitVec.ofNat 64 call.value.length)
        some (⟨call.key, bucket.body, .extent⟩, memory.largeObjects)

/-- What a refused Extent write leaves in its slot: the key and the mode of the call over the old body. -/
def refusedEntry (table : CuckooTable) (call : InsertCall) (idx : ℕ) : Entry :=
  ⟨call.key, (table.bucket idx).body, .extent⟩

section Stored

variable {call : InsertCall} {largeObjects written : Option LargeObjectRegion} {entry : Entry}
variable {table : CuckooTable} {memory : ClientMemory} {idx : ℕ}

theorem Stores.key (stores : Stores call largeObjects entry written) : entry.key = call.key := by
  cases stores <;> rfl

/-- An Inline entry takes no room in the region. -/
theorem Stores.region_eq (stores : Stores call largeObjects entry written)
    (mode : entry.mode = .inline) : written = largeObjects := by
  cases stores with
  | inline => rfl
  | extent => cases mode

/-- An allocation that succeeds has a region and an offset. -/
theorem allocate_eq_ok {offset : ℕ} {value : Bytes} {before : ClientMemory}
    (success : before.allocate value = (memory, .ok offset)) :
    ∃ region next, before.largeObjects = some region ∧ region.allocate value = (next, some offset) ∧
      memory = { before with largeObjects := some next } := by
  simp only [ClientMemory.allocate] at success
  split at success
  · cases success
  · next region present =>
      split at success
      · cases success
      · next next start outcome =>
          cases success
          exact ⟨region, next, present, outcome, rfl⟩

/-- An allocation that fails changes nothing. -/
theorem allocate_eq_error {before memory : ClientMemory} {value : Bytes} {error : RdmaError}
    (failed : before.allocate value = (memory, .error error)) : memory = before := by
  simp only [ClientMemory.allocate] at failed
  split at failed
  · cases failed
    rfl
  · next region present =>
      split at failed
      · next next outcome =>
          cases failed
          rw [ExtentRecord.allocate_eq_none outcome, ← present]
      · cases failed

/-- Allocation does not look at the buckets. -/
theorem allocate_setBucket (memory : ClientMemory) (idx : ℕ) (bucket : HashBucket) (value : Bytes) :
    (memory.setBucket idx bucket).allocate value =
      ((memory.allocate value).1.setBucket idx bucket, (memory.allocate value).2) := by
  obtain ⟨buckets, _ | region⟩ := memory
  · rfl
  · simp only [ClientMemory.allocate, ClientMemory.setBucket]
    split <;> rfl

theorem stores_of_slotWrite (stored : slotWrite table largeObjects call idx = some (entry, written)) :
    Stores call largeObjects entry written := by
  rw [slotWrite] at stored
  split at stored
  · next mode =>
      cases stored
      exact .inline mode
  · next mode =>
      split at stored
      · cases stored
      · next memory offset outcome =>
          obtain ⟨region, next, present, allocated, rfl⟩ := allocate_eq_ok outcome
          obtain rfl : largeObjects = some region := present
          cases stored
          exact .extent mode allocated (congrArg Prod.fst (HashBucket.extentRefOf_copy
            (table.bucket idx).body _ (BitVec.ofNat 64 call.value.length)))

theorem write_of_slotWrite (stored : slotWrite table largeObjects call idx = some (entry, written)) :
    writeToBucketInternal call (memoryOf table largeObjects) idx =
      (memoryOf (table.writeSlot idx entry) written, .ok ()) := by
  rw [slotWrite] at stored
  split at stored
  · next mode =>
      cases stored
      exact write_inline mode
  · next mode =>
      split at stored
      · cases stored
      · next memory offset allocated =>
          obtain ⟨_, _, _, _, same⟩ := allocate_eq_ok allocated
          cases stored
          simp only [writeToBucketInternal, mode, allocate_setBucket, allocated]
          simp only [same, ClientMemory.setBucket, memoryOf, CuckooTable.writeSlot, CuckooTable.setBucket,
            List.set_set]
          rfl

theorem write_of_slotWrite_none (fails : slotWrite table largeObjects call idx = none) :
    ∃ error, writeToBucketInternal call (memoryOf table largeObjects) idx =
      (memoryOf (table.writeSlot idx (refusedEntry table call idx)) largeObjects, .error error) := by
  rw [slotWrite] at fails
  split at fails
  · cases fails
  · next mode =>
      split at fails
      · next memory error failed =>
          obtain rfl := allocate_eq_error failed
          refine ⟨error, ?_⟩
          simp only [writeToBucketInternal, mode, allocate_setBucket, failed]
          rfl
      · cases fails

private theorem stores_of_write (success : writeToBucketInternal call (memoryOf table largeObjects)
      idx = (memory, .ok ())) :
    ∃ entry written, Stores call largeObjects entry written ∧
      memory = memoryOf (table.writeSlot idx entry) written := by
  cases stored : slotWrite table largeObjects call idx with
  | none =>
    obtain ⟨error, refused⟩ := write_of_slotWrite_none stored
    cases refused.symm.trans success
  | some write =>
    have wrote := write_of_slotWrite stored
    exact ⟨_, _, stores_of_slotWrite stored, (Prod.mk.inj (success.symm.trans wrote)).1⟩

/-- Everything about a home that takes the call: it was free, and the new bucket is there, with its extent if
there is one. -/
theorem tryInsertAt_eq_true (success : tryInsertAt call (memoryOf table largeObjects)
      idx = (memory, .ok true)) :
    (table.bucket idx).isFree = true ∧
      ((call.mode = .inline ∧
          memory = (memoryOf table largeObjects).setBucket idx (InlineEntry call).toBucket) ∨
        call.mode = .extent ∧ ∃ region next offset, largeObjects = some region ∧
          region.allocate call.value = (next, some offset) ∧
          memory = (memoryOf table (some next)).setBucket idx (call.newBucket offset)) := by
  have slot := bucket_memoryOf table largeObjects idx
  simp only [tryInsertAt, slot] at success
  split at success
  · cases success
  · split at success
    · next free =>
        refine ⟨free, ?_⟩
        cases mode : call.mode with
        | inline =>
          simp only [mode, newBucket_inline mode] at success
          exact .inl ⟨rfl, (Prod.mk.inj success).1.symm⟩
        | extent =>
          simp only [mode] at success
          split at success
          · cases success
          · next after offset outcome =>
              obtain ⟨region, next, present, allocated, rfl⟩ := allocate_eq_ok outcome
              exact .inr ⟨rfl, region, next, offset, present, allocated, (Prod.mk.inj success).1.symm⟩
    · cases success

theorem stores_of_tryInsertAt (success : tryInsertAt call (memoryOf table largeObjects)
      idx = (memory, .ok true)) :
    (table.bucket idx).isFree = true ∧ ∃ entry written, Stores call largeObjects entry written ∧
      memory = memoryOf (table.writeSlot idx entry) written := by
  obtain ⟨free, placed⟩ := tryInsertAt_eq_true success
  refine ⟨free, ?_⟩
  rcases placed with ⟨mode, rfl⟩ | ⟨mode, region, next, offset, rfl, allocated, rfl⟩
  · exact ⟨_, _, .inline mode, rfl⟩
  · refine ⟨_, _, .extent mode allocated (congrArg Prod.fst (extentRef_newBucket mode offset)), ?_⟩
    have stored : call.newBucket offset =
        Entry.toBucket ⟨call.key, (call.newBucket offset).body, .extent⟩ := by
      simp only [InsertCall.newBucket, mode]
      rfl
    rw [stored]
    rfl

theorem tryInsertAt_passed
    (passed : (table.bucket idx).isLocked = true ∨ (table.bucket idx).isFree = false) :
    tryInsertAt call (memoryOf table largeObjects) idx =
      (memoryOf table largeObjects, .ok false) := by
  cases locked : (table.bucket idx).isLocked with
  | true => simp only [tryInsertAt, bucket_memoryOf, locked, if_true]
  | false => exact tryInsertAt_taken locked (passed.resolve_left (by rw [locked]; decide))

/-- A free home takes the call, or its extent has no room and nothing changes. -/
theorem tryInsertAt_free (unlocked : (table.bucket idx).isLocked = false)
    (free : (table.bucket idx).isFree = true) :
    (∃ placed, tryInsertAt call (memoryOf table largeObjects) idx = (placed, .ok true)) ∨
      ∃ error, tryInsertAt call (memoryOf table largeObjects) idx =
        (memoryOf table largeObjects, .error error) := by
  rw [HashBucket.isFree] at free
  simp only [tryInsertAt, bucket_memoryOf, unlocked, free, if_true, Bool.false_eq_true,
    if_false]
  split
  · exact .inl ⟨_, rfl⟩
  · split
    · next memory error failed =>
        obtain rfl := allocate_eq_error failed
        exact .inr ⟨error, rfl⟩
    · exact .inl ⟨_, rfl⟩

/-- A home that was passed over is taken, and nothing has changed. -/
theorem taken_of_tryInsertAt (unlocked : (table.bucket idx).isLocked = false)
    (passed : tryInsertAt call (memoryOf table largeObjects) idx = (memory, .ok false)) :
    (table.bucket idx).isFree = false ∧ memory = memoryOf table largeObjects := by
  cases free : (table.bucket idx).isFree with
  | false =>
    rw [tryInsertAt_taken unlocked free] at passed
    exact ⟨rfl, (Prod.mk.inj passed).1.symm⟩
  | true =>
    rcases tryInsertAt_free unlocked free with ⟨placed, direct⟩ | ⟨error, refused⟩
    · cases direct.symm.trans passed
    · cases refused.symm.trans passed

/-- A chain that places its call runs as the engine's does on the entry that the call stores. -/
theorem kickChain_stores (kicks : ℕ) (unlocked : Unlocked table) {curIdx result : ℕ}
    (inserted : (kickChain table.bucketCount kicks (memoryOf table largeObjects) curIdx
      call).2 = .ok (.inserted result)) :
    ∃ entry written, Stores call largeObjects entry written ∧
      (kickChain table.bucketCount kicks (memoryOf table largeObjects) curIdx call).1 =
        memoryOf (table.kickChain kicks curIdx entry).1 written ∧
      (table.kickChain kicks curIdx entry).2 = .ok () := by
  cases kicks with
  | zero => cases inserted
  | succ kicks =>
    cases extent : (table.bucket curIdx).isExtent with
    | true =>
      simp only [kickChain, bucket_memoryOf, unlocked curIdx, extent, if_true,
        Bool.false_eq_true, if_false] at inserted
      cases inserted
    | false =>
      rcases outcome : writeToBucketInternal call (memoryOf table largeObjects) curIdx with
        ⟨memory, error | _⟩
      · simp only [kickChain, bucket_memoryOf, unlocked curIdx, extent, Bool.false_eq_true,
          if_false, outcome] at inserted
        cases inserted
      · obtain ⟨entry, written, stores, rfl⟩ := stores_of_write outcome
        refine ⟨entry, written, stores, ?_⟩
        have round : kickChain table.bucketCount (kicks + 1) _ curIdx call = _ :=
          kickChain_round (unlocked curIdx) extent outcome
        rw [round] at inserted ⊢
        simp only [CuckooTable.kickChain] at inserted ⊢
        split at inserted
        · next vacant =>
            rw [if_pos vacant, if_pos vacant]
            exact ⟨rfl, rfl⟩
        · next full =>
            rw [if_neg full, if_neg full]
            have carries : (displacedCall (table.bucket curIdx)).mode = .inline := rfl
            have onward := kickChain_inline written kicks (unlocked.writeSlot curIdx entry)
              carries (Bool.eq_false_iff.mpr full)
            rw [inlineEntry_displacedCall extent] at onward
            rcases onward with ⟨same, outcome⟩ | ⟨gaveUp, _⟩
            · exact ⟨same, outcome.inserted_iff.mp ⟨result, inserted⟩⟩
            · have both := inserted.symm.trans gaveUp
              cases both

end Stored

/-- A table is another one with an entry added. -/
structure Adds (table : CuckooTable) (entry : Entry) (after : CuckooTable) : Prop where
  count : after.bucketCount = table.bucketCount
  placed : Placed after
  unlocked : Unlocked after
  entries : liveEntries after = liveEntries table + {entry}

section Added

variable {call : InsertCall} {largeObjects : Option LargeObjectRegion} {entry : Entry}
variable {table : CuckooTable} {idx : ℕ}

private theorem adds_writeSlot (two : 2 ≤ table.bucketCount) (placed : Placed table)
    (unlocked : Unlocked table) {key : HashedKey} (owner : entry.key = key) (nonzero : key.hash ≠ 0)
    (home : IsHome table key idx) (free : (table.bucket idx).isFree = true) :
    Adds table entry (table.writeSlot idx entry) := by
  subst owner
  exact ⟨rfl, placed.writeSlot (home.lt two) home, unlocked.writeSlot idx entry,
    liveEntries_writeSlot_free (home.lt two) nonzero free⟩

private theorem adds_kickChain {kicks : ℕ} (two : 2 ≤ table.bucketCount) (placed : Placed table)
    (unlocked : Unlocked table) {key : HashedKey} (owner : entry.key = key) (nonzero : key.hash ≠ 0)
    (home : IsHome table key idx) (taken : (table.bucket idx).isFree = false)
    (success : (table.kickChain kicks idx entry).2 = .ok ()) :
    Adds table entry (table.kickChain kicks idx entry).1 := by
  subst owner
  obtain ⟨stillPlaced, outcome, trade⟩ := kickChain_spec kicks two placed
    (entryOf_eq_some.mpr ⟨taken, rfl⟩) home nonzero
  refine ⟨kickChain_bucketCount _ _ _, stillPlaced, ?_, ?_⟩
  · intro query
    have either : (table.kickChain kicks idx entry).1.bucket query = table.bucket query ∨ _ :=
      kickChain_bucket kicks idx entry query
    rcases either with same | ⟨moved, stored⟩
    · exact same ▸ unlocked query
    · exact stored ▸ LockWord.isLocked_modeBits moved.mode
  · cases hand : leftInHand table kicks idx entry with
    | none =>
      rw [hand] at trade
      exact (add_zero _).symm.trans trade
    | some lost =>
      rw [hand, success] at outcome
      cases outcome

/-- What an insertion that succeeds does: it adds the entry it stores to the live ones, whatever they
are. -/
theorem insert_inserted (two : 2 ≤ table.bucketCount) (placed : Placed table)
    (unlocked : Unlocked table) (nonzero : call.key.hash ≠ 0)
    (inserted : (ClientWriter.insert call (memoryOf table largeObjects) table.bucketCount).2 =
      .ok (.inserted idx)) :
    ∃ after entry written, Stores call largeObjects entry written ∧ Adds table entry after ∧
      (ClientWriter.insert call (memoryOf table largeObjects) table.bucketCount).1 =
        memoryOf after written := by
  have firstHome : IsHome table call.key (table.h1 call.key.hash) := .inl rfl
  have secondHome : IsHome table call.key (table.h2 call.key.hash) := .inr rfl
  rcases first : tryInsertAt call (memoryOf table largeObjects) (table.h1 call.key.hash)
    with ⟨memory, error | _ | _⟩
  · rw [CuckooTable.h1] at first
    simp only [ClientWriter.insert, first] at inserted
    cases inserted
  · obtain ⟨taken, rfl⟩ := taken_of_tryInsertAt (unlocked _) first
    rcases second : tryInsertAt call (memoryOf table largeObjects)
      (table.h2 call.key.hash) with ⟨memory, error | _ | _⟩
    · rw [CuckooTable.h1] at first
      rw [CuckooTable.h2] at second
      simp only [ClientWriter.insert, first, second] at inserted
      cases inserted
    · obtain ⟨_, rfl⟩ := taken_of_tryInsertAt (unlocked _) second
      rw [insert_kick first second] at inserted ⊢
      obtain ⟨entry, written, stores, same, success⟩ := kickChain_stores _ unlocked inserted
      exact ⟨_, entry, written, stores,
        adds_kickChain two placed unlocked stores.key nonzero firstHome taken success, same⟩
    · obtain ⟨free, entry, written, stores, rfl⟩ := stores_of_tryInsertAt second
      exact ⟨_, entry, written, stores,
        adds_writeSlot two placed unlocked stores.key nonzero secondHome free,
        congrArg Prod.fst (insert_second first second)⟩
  · obtain ⟨free, entry, written, stores, rfl⟩ := stores_of_tryInsertAt first
    exact ⟨_, entry, written, stores,
      adds_writeSlot two placed unlocked stores.key nonzero firstHome free,
      congrArg Prod.fst (insert_first first)⟩

end Added

/-- In how many buckets a key is live. -/
def timesLive (buckets : List HashBucket) (key : HashedKey) : ℕ :=
  (SlotArray.contents entryOf buckets).countP fun entry => entry.key = key

section Counting

variable {table after : CuckooTable} {entry : Entry} {key : HashedKey}

theorem timesLive_eq_zero :
    timesLive table.buckets key = 0 ↔ ∀ entry ∈ liveEntries table, entry.key ≠ key :=
  Multiset.countP_eq_zero

/-- One more entry of a key is one more bucket in which it is live. -/
theorem timesLive_of_added (entries : liveEntries after = liveEntries table + {entry})
    (owner : entry.key = key) : timesLive after.buckets key = timesLive table.buckets key + 1 := by
  have count : timesLive after.buckets key = (liveEntries after).countP fun entry => entry.key = key := rfl
  rw [count, entries, Multiset.countP_add]
  refine congrArg _ ?_
  rw [← Multiset.cons_zero, Multiset.countP_cons, if_pos owner, Multiset.countP_zero]

theorem Adds.timesLive_eq (adds : Adds table entry after) (owner : entry.key = key) :
    timesLive after.buckets key = timesLive table.buckets key + 1 :=
  timesLive_of_added adds.entries owner

/-- Adding an entry of a new key keeps every key live at most once. -/
theorem Adds.wellPlaced (adds : Adds table entry after) (valid : WellPlaced table)
    (absent : ∀ other ∈ liveEntries table, other.key ≠ entry.key) : WellPlaced after where
  two := adds.count ▸ valid.two
  placed := adds.placed
  distinct := by
    rw [DistinctKeys, adds.entries]
    exact valid.distinct.add_fresh absent

end Counting

section Reading

variable {table : CuckooTable} {key : HashedKey} {largeObjects : Option LargeObjectRegion}

/-- What a local read makes of a live entry. -/
def Entry.readValue (entry : Entry) (largeObjects : Option LargeObjectRegion) : Option ReadResult :=
  LookupResult.readValue (Entry.result entry) largeObjects

theorem get_of_live (valid : WellPlaced table) (unlocked : Unlocked table) {entry : Entry}
    (member : entry ∈ liveEntries table) (owner : entry.key = key) :
    ClientReader.get key table.buckets largeObjects table.bucketCount =
      .ok (Entry.readValue entry largeObjects) := by
  obtain ⟨_, _, live⟩ := mem_liveEntries.mp member
  have nonzero : key.hash ≠ 0 := owner ▸ hash_ne_zero_of_live live
  rw [get_eq_lookup valid unlocked nonzero,
    (lookup_eq_some_iff valid nonzero).mpr ⟨entry, member, owner, rfl⟩]
  rfl

/-- No home answers for a key that is nowhere live, however often the other keys are. -/
theorem get_of_absent (two : 2 ≤ table.bucketCount) (unlocked : Unlocked table)
    (nonzero : key.hash ≠ 0) (absent : ∀ entry ∈ liveEntries table, entry.key ≠ key) :
    ClientReader.get key table.buckets largeObjects table.bucketCount = .ok none := by
  have silent : ∀ idx < table.bucketCount, ¬ table.answers key idx = true := by
    intro idx bound answers
    obtain ⟨entry, live, owner⟩ := (answers_iff nonzero).mp answers
    exact absent entry (mem_liveEntries.mpr ⟨idx, bound, live⟩) owner
  rw [get_eq_or two nonzero, tryReadBucket_eq unlocked, tryReadBucket_eq unlocked,
    if_neg (silent _ (table.h1_lt _)), if_neg (silent _ (table.h2_lt two _)), Option.or_none]

theorem get_of_hash_eq_zero (zero : key.hash = 0) (buckets : List HashBucket) (bucketCount : ℕ) :
    ClientReader.get key buckets largeObjects bucketCount = .error .invalidKey := by
  rw [ClientReader.get, if_pos zero]

/-- The reads of the other keys are unchanged exactly when every live entry reads as before. -/
theorem get_others_iff {after : CuckooTable} {entry : Entry} {written : Option LargeObjectRegion}
    (valid : WellPlaced table) (unlocked : Unlocked table) (adds : Adds table entry after)
    (absent : ∀ other ∈ liveEntries table, other.key ≠ entry.key) :
    (∀ other, other ≠ entry.key →
      ClientReader.get other after.buckets written table.bucketCount =
        ClientReader.get other table.buckets largeObjects table.bucketCount) ↔
      ∀ other ∈ liveEntries table, Entry.readValue other written = Entry.readValue other largeObjects := by
  have afterValid := adds.wellPlaced valid absent
  have added : ∀ other, other ∈ liveEntries after ↔ other ∈ liveEntries table ∨ other = entry := by
    intro other
    rw [adds.entries, Multiset.mem_add, Multiset.mem_singleton]
  rw [← adds.count]
  constructor
  · intro unchanged other member
    have same := unchanged other.key (absent other member)
    rw [get_of_live afterValid adds.unlocked ((added other).mpr (.inl member)) rfl, adds.count,
      get_of_live valid unlocked member rfl] at same
    exact Except.ok.inj same
  · intro same key differs
    by_cases zero : key.hash = 0
    · rw [get_of_hash_eq_zero zero, get_of_hash_eq_zero zero]
    · by_cases live : ∃ other ∈ liveEntries table, other.key = key
      · obtain ⟨other, member, owner⟩ := live
        rw [get_of_live afterValid adds.unlocked ((added other).mpr (.inl member)) owner, adds.count,
          get_of_live valid unlocked member owner, same other member]
      · have before : ∀ other ∈ liveEntries table, other.key ≠ key :=
          fun other member owner => live ⟨other, member, owner⟩
        rw [get_of_absent afterValid.two adds.unlocked zero, adds.count,
          get_of_absent valid.two unlocked zero before]
        intro other member owner
        rcases (added other).mp member with old | rfl
        · exact before other old owner
        · exact differs owner.symm

end Reading

/-- An Extent write leaves what the live entries refer to as it was, and the length of its value fits
the header. -/
def KeepsExtents (table : CuckooTable) (largeObjects : Option LargeObjectRegion) (call : InsertCall) :
    Prop :=
  call.mode = .extent → call.value.length < 2 ^ 32 ∧
    ∀ region, largeObjects = some region → ∀ entry ∈ liveEntries table, entry.mode = .extent →
      let offset := (HashBucket.extentRefOf entry.body).1.toNat
      (region.allocate call.value).1.read offset = region.read offset

/-- A region as the program makes it: it is addressed by 64 bits and its free ranges lie inside. -/
def Addressable (region : LargeObjectRegion) : Prop :=
  region.size ≤ 2 ^ 64 ∧ ∀ range ∈ region.freeList, range.1 + range.2 ≤ region.size

section Written

variable {table : CuckooTable} {call : InsertCall} {entry : Entry}
variable {largeObjects written : Option LargeObjectRegion}

/-- The value just written is read back unless its length does not fit the header of its extent. -/
theorem Stores.readValue_iff (stores : Stores call largeObjects entry written)
    (addressable : ∀ region, largeObjects = some region → Addressable region) :
    Entry.readValue entry written = some ⟨storedValue call.value call.mode, call.mode⟩ ↔
      (call.mode = .extent → call.value.length < 2 ^ 32) := by
  cases stores with
  | inline mode =>
    rw [mode]
    refine iff_of_true ?_ nofun
    have body : (CuckooTable.packBody call.value .inline).toList = padded (call.value.take 32) :=
      toList_packBody call.value .inline
    simp only [Entry.readValue, LookupResult.readValue, Entry.result, InlineEntry, body, storedValue]
  | extent mode allocated reference =>
    next region next offset body =>
    obtain ⟨small, inside⟩ := addressable region rfl
    have fits := ExtentRecord.allocate_fits inside allocated
    have header := le_extentTotal call.value.length
    simp only [headerSize] at header
    have position : (HashBucket.extentRefOf body).1.toNat = offset := by
      rw [reference, BitVec.toNat_ofNat, Nat.mod_eq_of_lt (by omega)]
    have read : Entry.readValue ⟨call.key, body, .extent⟩ (some next) =
        some ⟨call.value.take (call.value.length % 2 ^ 32), .extent⟩ := by
      change (next.read (HashBucket.extentRefOf body).1.toNat).map _ = _
      rw [position, ExtentRecord.read_allocate inside allocated, Option.map_some]
    have cut : call.value.length ≤ call.value.length % 2 ^ 32 ↔ call.value.length < 2 ^ 32 := by omega
    rw [read, mode, storedValue, Option.some.injEq, ReadResult.mk.injEq, List.take_eq_self_iff, cut]
    simp

/-- The live entries are read as before exactly when the extents they refer to are. -/
theorem Stores.readValues_iff (stores : Stores call largeObjects entry written) :
    (∀ other ∈ liveEntries table, Entry.readValue other written = Entry.readValue other largeObjects) ↔
      (call.mode = .extent → ∀ region, largeObjects = some region →
        ∀ other ∈ liveEntries table, other.mode = .extent →
          let offset := (HashBucket.extentRefOf other.body).1.toNat
          (region.allocate call.value).1.read offset = region.read offset) := by
  cases stores with
  | inline mode =>
    rw [mode]
    exact iff_of_true (fun _ _ => rfl) nofun
  | extent mode allocated reference =>
    simp only [mode, Option.some.injEq, forall_const, forall_eq', allocated]
    refine forall_congr' fun other => imp_congr_right fun _ => ?_
    cases kind : other.mode with
    | inline => simp [Entry.readValue, LookupResult.readValue, Entry.result, kind]
    | extent =>
      simp only [Entry.readValue, LookupResult.readValue, Entry.result, kind, Option.bind_some,
        forall_const]
      refine ⟨fun same => ?_, fun same => by rw [same]⟩
      exact Option.map_injective (fun left right => by simp) same

/-- A local write is an overwrite exactly when the key was not live and the extents are kept. -/
theorem insert_overwrites_iff {idx : ℕ} (valid : WellPlaced table) (unlocked : Unlocked table)
    (nonzero : call.key.hash ≠ 0) (addressable : ∀ region, largeObjects = some region → Addressable region)
    (inserted : (ClientWriter.insert call ⟨table.buckets, largeObjects⟩ table.bucketCount).2 =
      .ok (.inserted idx)) :
    let written := (ClientWriter.insert call ⟨table.buckets, largeObjects⟩ table.bucketCount).1
    (ClientReader.get call.key written.buckets written.largeObjects table.bucketCount =
        .ok (some ⟨storedValue call.value call.mode, call.mode⟩) ∧
      timesLive written.buckets call.key = 1 ∧
      ∀ other, other ≠ call.key →
        ClientReader.get other written.buckets written.largeObjects table.bucketCount =
          ClientReader.get other table.buckets largeObjects table.bucketCount) ↔
      timesLive table.buckets call.key = 0 ∧ KeepsExtents table largeObjects call := by
  intro written
  obtain ⟨after, entry, objects, stores, adds, same⟩ :=
    insert_inserted valid.two valid.placed unlocked nonzero inserted
  have buckets : written.buckets = after.buckets := congrArg ClientMemory.buckets same
  have region : written.largeObjects = objects := congrArg ClientMemory.largeObjects same
  rw [buckets, region, adds.timesLive_eq stores.key, Nat.add_eq_right, and_left_comm]
  refine and_congr_right fun absent => ?_
  have others := timesLive_eq_zero.mp absent
  rw [← stores.key] at others ⊢
  have member : entry ∈ liveEntries after := by
    rw [adds.entries]
    exact Multiset.mem_add.mpr (.inr (Multiset.mem_singleton_self entry))
  rw [get_others_iff valid unlocked adds others, ← adds.count,
    get_of_live (adds.wellPlaced valid others) adds.unlocked member rfl, Except.ok.injEq,
    stores.readValue_iff addressable, stores.readValues_iff, KeepsExtents, forall_and]

end Written

section Remote

/-- The first home of a key other than a slot that a remote read takes for the key's. -/
def matchElsewhere (table : CuckooTable) (slot : ℕ) (key : HashedKey) : Option ℕ :=
  [table.h1 key.hash, table.h2 key.hash].find? fun idx =>
    idx != slot && (table.bucket idx).matchesKey key.hash key.digest

/-- A key that a remote reader finds in the slot is found in its other home as well, with the same
value. The slot is free, so it holds the key's tombstone. -/
def ReadableElsewhere (transport : Transport) (regions : RemoteRegions) (table : CuckooTable)
    (slot : ℕ) (key : HashedKey) : Prop :=
  key.hash ≠ 0 → firstMatch table key = some slot → ∃ home, matchElsewhere table slot key = some home ∧
    extractValue (table.bucket home) transport regions =
      extractValue (table.bucket slot) transport regions

variable {table : CuckooTable} {call : InsertCall} {key : HashedKey} {slot : ℕ}
variable {before after : Transport} {regions : RemoteRegions} {region : Memory} {size : ℕ}

/-- A new bucket hides what its slot held from the readers of every other key. -/
theorem firstMatch_setBucket (bound : slot < table.bucketCount) {bucket : HashBucket}
    (other : bucket.matchesKey key.hash key.digest = false) :
    firstMatch (table.setBucket slot bucket) key = matchElsewhere table slot key := by
  have sees : ∀ idx, ((table.setBucket slot bucket).bucket idx).matchesKey key.hash key.digest =
      (idx != slot && (table.bucket idx).matchesKey key.hash key.digest) := by
    intro idx
    rw [table.bucket_setBucket bound]
    by_cases same : slot = idx
    · subst idx
      simp [other]
    · simp [same, bne_iff_ne.mpr (Ne.symm same)]
  simp only [firstMatch, matchElsewhere, CuckooTable.setBucket_h1, CuckooTable.setBucket_h2, sees]

theorem matchElsewhere_of_ne {idx : ℕ} (first : firstMatch table key = some idx) (apart : idx ≠ slot) :
    matchElsewhere table slot key = some idx := by
  refine find?_of_stronger first (fun query held => (Bool.and_eq_true_iff.mp held).2) ?_
  exact Bool.and_eq_true_iff.mpr ⟨bne_iff_ne.mpr apart, matchesKey_of_firstMatch first⟩

private theorem matchElsewhere_of_none (missing : firstMatch table key = none) :
    matchElsewhere table slot key = none := by
  rw [firstMatch, List.find?_eq_none] at missing
  rw [matchElsewhere, List.find?_eq_none]
  intro idx home held
  exact missing idx home (Bool.and_eq_true_iff.mp held).2

private theorem matchElsewhere_ne {idx : ℕ} (found : matchElsewhere table slot key = some idx) :
    idx ≠ slot := by
  have held := List.find?_some found
  exact bne_iff_ne.mp (Bool.and_eq_true_iff.mp held).1

private theorem map_some_injective {ε α : Type} :
    Function.Injective (fun result : Except ε α => some <$> result) := by
  rintro (_ | _) (_ | _) equal <;> cases equal <;> rfl

/-- After the slot was rewritten, another key reads as before exactly when the slot did not matter. -/
theorem getRemote_rewritten_iff (two : 2 ≤ table.bucketCount) (unlocked : Unlocked table)
    (bound : slot < table.bucketCount) {bucket : HashBucket} (notLocked : bucket.isLocked = false)
    (other : bucket.matchesKey key.hash key.digest = false)
    (servesBefore : Serves before regions table.buckets region size)
    (servesAfter : Serves after regions (table.setBucket slot bucket).buckets region size)
    (sameObjects : ∀ length addr, after.read length regions.lkey addr regions.largeObjRkey =
      before.read length regions.lkey addr regions.largeObjRkey) :
    getRemote key after regions table.bucketCount = getRemote key before regions table.bucketCount ↔
      ReadableElsewhere before regions table slot key := by
  by_cases zero : key.hash = 0
  · refine iff_of_true ?_ (fun nonzero => absurd zero nonzero)
    rw [getRemote, getRemote, if_pos zero, if_pos zero]
  have extracts : ∀ found, extractValue found after regions = extractValue found before regions := by
    intro found
    simp only [extractValue, sameObjects]
  have read : getRemote key after regions (table.setBucket slot bucket).bucketCount = _ :=
    getRemote_eq servesAfter (unlocked.setBucket slot notLocked) two zero
  rw [show (table.setBucket slot bucket).bucketCount = table.bucketCount from rfl] at read
  rw [read, getRemote_eq servesBefore unlocked two zero, firstMatch_setBucket bound other]
  -- Reading something is never the same as finding nothing.
  have some_ne : ∀ result : Except RdmaError ReadResult, .ok none ≠ some <$> result := by
    rintro (_ | _) same <;> cases same
  cases first : firstMatch table key with
  | none =>
    rw [matchElsewhere_of_none first]
    exact iff_of_true rfl (fun _ found => absurd (first.symm.trans found) (Option.some_ne_none slot).symm)
  | some idx =>
    by_cases same : idx = slot
    · subst idx
      simp only [ReadableElsewhere, first, ne_eq, zero, not_false_eq_true, forall_const]
      cases elsewhere : matchElsewhere table slot key with
      | none => exact iff_of_false (some_ne _) (by rintro ⟨_, ⟨⟩, _⟩)
      | some home =>
        have apart := (matchElsewhere_ne elsewhere).symm
        simp only [table.bucket_setBucket bound, if_neg apart, extracts, Option.some.injEq,
          exists_eq_left']
        refine ⟨fun equal => ?_, fun equal => by rw [equal]⟩
        exact map_some_injective equal
    · rw [matchElsewhere_of_ne first same]
      refine iff_of_true ?_ (fun _ found => absurd (Option.some.inj (first.symm.trans found)) same)
      simp only [table.bucket_setBucket bound, if_neg (Ne.symm same), extracts]

/-- A remote Inline write by a single client is an overwrite exactly when the key was not live and the
slot it takes did not matter to the readers of other keys. -/
theorem insertRemote_overwrites_iff {xxh64 : Xxh64} {labels : List Unit}
    {final : InsertState Unit} {idx : ℕ} (valid : WellPlaced table) (unlocked : Unlocked table)
    (nonzero : call.key.hash ≠ 0) (mode : call.mode = .inline)
    (reached : run (InsertState.step xxh64 fun _ => call) (.initial table region) labels = some final)
    (returned : final.clients () = .returned (.ok (.inserted idx)))
    (servesBefore : Serves before regions table.buckets region size)
    (servesAfter : Serves after regions final.table.buckets final.region size)
    (sameObjects : ∀ length addr, after.read length regions.lkey addr regions.largeObjRkey =
      before.read length regions.lkey addr regions.largeObjRkey) :
    (getRemote call.key after regions table.bucketCount =
        .ok (some ⟨storedValue call.value call.mode, call.mode⟩) ∧
      timesLive final.table.buckets call.key = 1 ∧
      ∀ other, other ≠ call.key →
        getRemote other after regions table.bucketCount =
          getRemote other before regions table.bucketCount) ↔
      timesLive table.buckets call.key = 0 ∧
        ∀ slot, firstHome table call.key = some slot → ∀ other, other ≠ call.key →
          ReadableElsewhere before regions table slot other := by
  obtain ⟨heads, tableEq, regionEq⟩ := inserted_alone unlocked reached returned
  have home : IsHome table call.key idx := mem_homes.mp (List.mem_of_find?_eq_some heads)
  have adds : Adds table (InlineEntry call) final.table := by
    rw [tableEq, newBucket_inline mode]
    exact adds_writeSlot valid.two valid.placed unlocked rfl nonzero home (isFree_of_firstHome heads)
  have kept : final.region = region := by
    rw [regionEq, prepared, mode]
  have count : timesLive final.table.buckets call.key = timesLive table.buckets call.key + 1 :=
    adds.timesLive_eq rfl
  rw [count, Nat.add_eq_right, and_left_comm]
  refine and_congr_right fun absent => ?_
  rw [tableEq, regionEq] at servesAfter
  have notExtent : call.mode ≠ .extent := by
    rw [mode]
    decide
  have own : getRemote call.key after regions table.bucketCount = _ :=
    getRemote_inserted valid.two unlocked nonzero (timesLive_eq_zero.mp absent) heads
      (fun extent => absurd extent notExtent) servesAfter
  rw [mode] at own ⊢
  refine (and_iff_right own).trans ?_
  simp only [heads, Option.some.injEq, forall_eq']
  refine forall_congr' fun other => imp_congr_right fun differs => ?_
  have foreign : (call.newBucket (prepared xxh64 call region).2).matchesKey other.hash other.digest =
      false := by
    rw [Bool.eq_false_iff]
    intro held
    have bears := matchesKey_iff.mp held
    rw [newBucket_inline mode] at bears
    exact differs bears.symm
  rw [← regionEq, kept] at servesAfter
  exact getRemote_rewritten_iff valid.two unlocked (home.lt valid.two) (isLocked_newBucket call _) foreign
    servesBefore servesAfter sameObjects

end Remote

/-- A write that reports success is an overwrite (its value is read back, the key is live once, the
other keys read as before) exactly when the key was not live before: locally with the extents of the
other keys kept, remotely with the slot it takes unused by the readers of other keys. -/
theorem client_overwrite_iff {table : CuckooTable} (valid : WellPlaced table)
    (unlocked : Unlocked table) (call : InsertCall) (nonzero : call.key.hash ≠ 0) :
    (∀ (largeObjects : Option LargeObjectRegion) (idx : ℕ),
      (∀ region, largeObjects = some region → Addressable region) →
      let write := ClientWriter.insert call ⟨table.buckets, largeObjects⟩ table.bucketCount
      write.2 = .ok (.inserted idx) →
      ((ClientReader.get call.key write.1.buckets write.1.largeObjects table.bucketCount =
            .ok (some ⟨storedValue call.value call.mode, call.mode⟩) ∧
          timesLive write.1.buckets call.key = 1 ∧
          ∀ other, other ≠ call.key →
            ClientReader.get other write.1.buckets write.1.largeObjects table.bucketCount =
              ClientReader.get other table.buckets largeObjects table.bucketCount) ↔
        timesLive table.buckets call.key = 0 ∧ KeepsExtents table largeObjects call)) ∧
    (call.mode = .inline → ∀ (xxh64 : Xxh64) (region : Memory) (size : ℕ)
        (labels : List Unit) (final : InsertState Unit) (idx : ℕ) (before after : Transport)
        (regions : RemoteRegions),
      run (InsertState.step xxh64 fun _ => call) (.initial table region) labels = some final →
      final.clients () = .returned (.ok (.inserted idx)) →
      Serves before regions table.buckets region size →
      Serves after regions final.table.buckets final.region size →
      (∀ length addr, after.read length regions.lkey addr regions.largeObjRkey =
        before.read length regions.lkey addr regions.largeObjRkey) →
      ((getRemote call.key after regions table.bucketCount =
            .ok (some ⟨storedValue call.value call.mode, call.mode⟩) ∧
          timesLive final.table.buckets call.key = 1 ∧
          ∀ other, other ≠ call.key →
            getRemote other after regions table.bucketCount =
              getRemote other before regions table.bucketCount) ↔
        timesLive table.buckets call.key = 0 ∧
          ∀ slot, firstHome table call.key = some slot → ∀ other, other ≠ call.key →
            ReadableElsewhere before regions table slot other)) := by
  constructor
  · intro largeObjects idx addressable write inserted
    exact insert_overwrites_iff valid unlocked nonzero addressable inserted
  · intro mode xxh64 region size labels final idx before after regions reached returned servesBefore
      servesAfter sameObjects
    exact insertRemote_overwrites_iff valid unlocked nonzero mode reached returned servesBefore servesAfter
      sameObjects

/-- A new key is written next to the one that is there, locally and remotely. -/
theorem client_overwrite_new_key :
    let table := runTable (CuckooTable.new 2 16 two_powerOfTwo) [.insert ⟨4, zeros 16⟩ [1] .inline]
    let call : InsertCall := ⟨⟨2, zeros 16⟩, [9], .inline⟩
    let write := ClientWriter.insert call ⟨table.buckets, none⟩ 2
    (ClientReader.get call.key write.1.buckets write.1.largeObjects 2 =
        .ok (some ⟨padded [9], .inline⟩) ∧
      timesLive write.1.buckets call.key = 1 ∧
      ∀ other, other ≠ call.key → ClientReader.get other write.1.buckets write.1.largeObjects 2 =
        ClientReader.get other table.buckets none 2) ∧
    ∃ labels final, run (InsertState.step xxh64OfA fun _ : Unit => call) (.initial table freshRegion)
        labels = some final ∧ final.clients () = .returned (.ok (.inserted 1)) ∧
      let before := serving demoRegions table.buckets freshRegion 256
      let after := serving demoRegions final.table.buckets final.region 256
      getRemote call.key after demoRegions 2 = .ok (some ⟨padded [9], .inline⟩) ∧
        timesLive final.table.buckets call.key = 1 ∧
        ∀ other, other ≠ call.key →
          getRemote other after demoRegions 2 = getRemote other before demoRegions 2 := by
  intro table call write
  have valid : WellPlaced table := wellPlaced_runTable (.new 16 two_powerOfTwo le_rfl) _
  have unlocked : Unlocked table := unlocked_runTable (unlocked_new 2 16 two_powerOfTwo) _
  have count : table.bucketCount = 2 := bucketCount_runTable _
  have overwrites := client_overwrite_iff valid unlocked call (by decide)
  rw [count] at overwrites
  have absent : timesLive table.buckets call.key = 0 := by decide +kernel
  have inserted : write.2 = .ok (.inserted 1) := by decide +kernel
  have heads : firstHome table call.key = some 1 := by decide +kernel
  have vacant : table.bucket 1 = HashBucket.zeroed := by decide +kernel
  refine ⟨(overwrites.1 none 1 nofun inserted).mpr ⟨absent, nofun⟩, ?_⟩
  obtain ⟨labels, final, reached, returned, tableEq, regionEq⟩ :=
    insertion_completes xxh64OfA freshRegion unlocked heads
  have distinct : demoRegions.largeObjRkey ≠ demoRegions.hashTableRkey := by decide
  have fits : 64 * table.buckets.length ≤ 2 ^ 64 := by rw [table.sized]; decide
  have fitsAfter : 64 * final.table.buckets.length ≤ 2 ^ 64 := by
    rw [final.table.sized, tableEq]
    decide
  refine ⟨labels, final, reached, returned, ?_⟩
  refine (overwrites.2 rfl xxh64OfA freshRegion 256 labels final 1 _ _ demoRegions reached returned
    (serves_serving distinct fits _ _) (serves_serving distinct fitsAfter _ _) ?_).mpr ⟨absent, ?_⟩
  · intro length addr
    simp only [serving, if_neg distinct, regionEq]
    rfl
  · intro slot taken other _ nonzero found
    obtain rfl : 1 = slot := Option.some.inj (heads.symm.trans taken)
    -- The slot is empty, so no real key is found there.
    have held := List.find?_some found
    rw [vacant] at held
    exact absurd (congrArg HashedKey.hash (matchesKey_iff.mp held)).symm nonzero

/-- A second write of a key goes to its other home and is not seen by readers. -/
theorem client_overwrite_keeps_old_value :
    let table := runTable (CuckooTable.new 2 16 two_powerOfTwo) [.insert ⟨2, zeros 16⟩ [7] .inline]
    let write := ClientWriter.insert ⟨⟨2, zeros 16⟩, [9], .inline⟩ ⟨table.buckets, none⟩ 2
    write.2 = .ok (.inserted 1) ∧
      ClientReader.get ⟨2, zeros 16⟩ write.1.buckets none 2 = .ok (some ⟨padded [7], .inline⟩) ∧
      timesLive write.1.buckets ⟨2, zeros 16⟩ = 2 := by
  intro table write
  refine ⟨?_, ?_, ?_⟩
  · decide +kernel
  · decide +kernel
  · decide +kernel

end Rdmas.Soundness
