import Rdmas.Model.ClientWrite
import Rdmas.Soundness.ClientRead
import Rdmas.Soundness.RemoteInsert

/-! # Local client writes

The client's kick chain is compared with the engine's. While it meets Inline occupants in unlocked
buckets, each of its steps is a step of the engine's chain on the entry it carries; an Extent occupant
makes it give up where the engine goes on.
-/

namespace Rdmas.Soundness

open Rdmas.Model LittleEndian FixedBytes ClientWriter

/-- The memory of a client that works on the buckets of a table. -/
def memoryOf (table : CuckooTable) (largeObjects : Option LargeObjectRegion) : ClientMemory :=
  ⟨table.buckets, largeObjects⟩

/-- The entry an Inline call stores. -/
def InlineEntry (call : InsertCall) : Entry := ⟨call.key, CuckooTable.packBody call.value .inline, .inline⟩

/-- The call a chain makes for an occupant it displaces. -/
def displacedCall (occupant : HashBucket) : InsertCall :=
  ⟨⟨occupant.keyHash, occupant.keyOrDigest⟩, occupant.inlineValue.toList, .inline⟩

section Steps

variable {table : CuckooTable} {largeObjects : Option LargeObjectRegion} {call : InsertCall} {idx : ℕ}

theorem bucket_memoryOf (table : CuckooTable) (largeObjects : Option LargeObjectRegion) (idx : ℕ) :
    (memoryOf table largeObjects).bucket idx = table.bucket idx := rfl

/-- A full body is packed as it is. -/
theorem packBody_toList (body : Vector Byte 32) : CuckooTable.packBody body.toList .inline = body := by
  rw [CuckooTable.packBody, Vector.length_toList, Nat.min_self,
    List.take_of_length_le (by rw [Vector.length_toList]), copyFromSlice_toList]

theorem inlineEntry_displacedCall {occupant : HashBucket} (inline_ : occupant.isExtent = false) :
    InlineEntry (displacedCall occupant) = occupant.toEntry := by
  simp only [InlineEntry, displacedCall, HashBucket.inlineValue, packBody_toList, HashBucket.toEntry,
    HashBucket.mode, inline_]
  rfl

private theorem isExtent_inlineEntry (call : InsertCall) : (InlineEntry call).toBucket.isExtent = false := by
  change LockWord.isExtent (BucketMode.inline.toU64 <<< 2) = false
  decide

theorem newBucket_inline (mode : call.mode = .inline) (oldOffset : ℕ) :
    call.newBucket oldOffset = (InlineEntry call).toBucket := by
  simp only [InsertCall.newBucket, mode]
  rfl

/-- An Inline write stores the entry of its call. -/
theorem write_inline (mode : call.mode = .inline) :
    writeToBucketInternal call (memoryOf table largeObjects) idx =
      (memoryOf (table.writeSlot idx (InlineEntry call)) largeObjects, .ok ()) := by
  simp only [writeToBucketInternal, mode]
  rfl

theorem tryInsertAt_taken (unlocked : (table.bucket idx).isLocked = false)
    (taken : (table.bucket idx).isFree = false) :
    tryInsertAt call (memoryOf table largeObjects) idx =
      (memoryOf table largeObjects, .ok false) := by
  rw [HashBucket.isFree] at taken
  simp only [tryInsertAt, bucket_memoryOf, unlocked, taken]
  rfl

theorem tryInsertAt_inline (mode : call.mode = .inline)
    (unlocked : (table.bucket idx).isLocked = false) (free : (table.bucket idx).isFree = true) :
    tryInsertAt call (memoryOf table largeObjects) idx =
      (memoryOf (table.writeSlot idx (InlineEntry call)) largeObjects, .ok true) := by
  rw [HashBucket.isFree] at free
  simp only [tryInsertAt, bucket_memoryOf, unlocked, free, mode, newBucket_inline mode]
  rfl

theorem Unlocked.writeSlot (unlocked : Unlocked table) (idx : ℕ) (entry : Entry) :
    Unlocked (table.writeSlot idx entry) :=
  unlocked.setBucket idx (LockWord.isLocked_modeBits entry.mode)

section Placement

variable {memory placed : ClientMemory} {bucketCount : ℕ}

theorem insert_first (direct : tryInsertAt call memory
      (call.key.hash.toNat % bucketCount) = (placed, .ok true)) :
    ClientWriter.insert call memory bucketCount =
      (placed, .ok (.inserted (call.key.hash.toNat % bucketCount))) := by
  rw [ClientWriter.insert, direct]

theorem insert_second (passed : tryInsertAt call memory
      (call.key.hash.toNat % bucketCount) = (memory, .ok false))
    (direct : tryInsertAt call memory
      ((call.key.hash >>> 32).toNat % bucketCount ||| 1) = (placed, .ok true)) :
    ClientWriter.insert call memory bucketCount =
      (placed, .ok (.inserted ((call.key.hash >>> 32).toNat % bucketCount ||| 1))) := by
  simp only [ClientWriter.insert, passed, direct]

theorem insert_kick (passed : tryInsertAt call memory
      (call.key.hash.toNat % bucketCount) = (memory, .ok false))
    (alsoPassed : tryInsertAt call memory
      ((call.key.hash >>> 32).toNat % bucketCount ||| 1) = (memory, .ok false)) :
    ClientWriter.insert call memory bucketCount =
      kickChain bucketCount maxKick memory (call.key.hash.toNat % bucketCount)
        call := by
  simp only [ClientWriter.insert, passed, alsoPassed]

end Placement

/-- One round of the client's chain over an unlocked Inline occupant. -/
theorem kickChain_round {kicks curIdx : ℕ} {cur : InsertCall} {entry : Entry}
    {written : Option LargeObjectRegion} (unlocked : (table.bucket curIdx).isLocked = false)
    (inline_ : (table.bucket curIdx).isExtent = false)
    (stores : writeToBucketInternal cur (memoryOf table largeObjects) curIdx =
      (memoryOf (table.writeSlot curIdx entry) written, .ok ())) :
    kickChain table.bucketCount (kicks + 1) (memoryOf table largeObjects) curIdx cur =
      let occupant := (table.bucket curIdx).toEntry
      let next := table.writeSlot curIdx entry
      let altIdx := table.altIdx curIdx occupant
      if (next.bucket altIdx).isFree then
        (memoryOf (next.writeSlot altIdx occupant) written, .ok (.inserted altIdx))
      else kickChain table.bucketCount kicks (memoryOf next written) altIdx
        (displacedCall (table.bucket curIdx)) := by
  have moves : ∀ {next : CuckooTable} {altIdx : ℕ},
      writeToBucketInternal (displacedCall (table.bucket curIdx)) (memoryOf next written)
        altIdx = (memoryOf (next.writeSlot altIdx (table.bucket curIdx).toEntry) written, .ok ()) := by
    intro next altIdx
    rw [write_inline rfl, inlineEntry_displacedCall inline_]
  simp only [displacedCall] at moves
  rw [kickChain]
  simp only [bucket_memoryOf, unlocked, inline_, stores, moves, Bool.false_eq_true, if_false]
  rfl

end Steps

/-- A memory after stores that build their lock word from mode bits: each bucket is as before or bears
such a word. -/
structure Rewrites (memory next : ClientMemory) : Prop where
  length : next.buckets.length = memory.buckets.length
  bucket : ∀ idx, next.bucket idx = memory.bucket idx ∨
    ∃ mode : BucketMode, (next.bucket idx).lockVersion = mode.toU64 <<< 2

section Rewriting

variable {memory middle next : ClientMemory}

theorem Rewrites.refl (memory : ClientMemory) : Rewrites memory memory :=
  ⟨rfl, fun _ => .inl rfl⟩

theorem Rewrites.trans (first : Rewrites memory middle) (second : Rewrites middle next) :
    Rewrites memory next := by
  refine ⟨second.length.trans first.length, fun idx => ?_⟩
  rcases second.bucket idx with same | fresh
  · rw [same]
    exact first.bucket idx
  · exact .inr fresh

private theorem rewrites_setBucket (memory : ClientMemory) (idx : ℕ) {bucket : HashBucket} {mode : BucketMode}
    (word : bucket.lockVersion = mode.toU64 <<< 2) : Rewrites memory (memory.setBucket idx bucket) := by
  refine ⟨List.length_set, fun query => ?_⟩
  simp only [ClientMemory.bucket, ClientMemory.setBucket, List.getD_eq_getElem?_getD, List.getElem?_set]
  split
  · split
    · exact .inr ⟨mode, word⟩
    · next beyond =>
        left
        rw [List.getElem?_eq_none (by omega)]
  · exact .inl rfl

/-- An allocation touches no bucket, whatever its outcome. -/
theorem rewrites_allocate {value : Bytes} {outcome : Except RdmaError ℕ}
    (allocated : memory.allocate value = (next, outcome)) : Rewrites memory next := by
  unfold ClientMemory.allocate at allocated
  split at allocated
  · cases allocated
    exact .refl memory
  · split at allocated <;> cases allocated <;> exact ⟨rfl, fun _ => .inl rfl⟩

private theorem rewrites_write {call : InsertCall} {idx : ℕ} {outcome : Except RdmaError Unit}
    (written : writeToBucketInternal call memory idx = (next, outcome)) :
    Rewrites memory next := by
  cases mode : call.mode with
  | inline =>
    simp only [writeToBucketInternal, mode] at written
    cases written
    exact rewrites_setBucket memory idx rfl
  | extent =>
    simp only [writeToBucketInternal, mode] at written
    split at written
    · next allocated =>
        cases written
        exact .trans (rewrites_setBucket memory idx rfl) (rewrites_allocate allocated)
    · next allocated =>
        cases written
        exact .trans (.trans (rewrites_setBucket memory idx rfl) (rewrites_allocate allocated))
          (rewrites_setBucket _ idx rfl)

private theorem rewrites_tryInsertAt {call : InsertCall} {idx : ℕ} {outcome : Except RdmaError Bool}
    (tried : tryInsertAt call memory idx = (next, outcome)) : Rewrites memory next := by
  simp only [tryInsertAt] at tried
  split at tried
  · cases tried
    exact .refl memory
  · split at tried
    · split at tried
      · cases tried
        exact rewrites_setBucket memory idx (call.newBucket_lockVersion 0)
      · split at tried
        · next allocated =>
            cases tried
            exact rewrites_allocate allocated
        · next offset allocated =>
            cases tried
            exact (rewrites_allocate allocated).trans
              (rewrites_setBucket _ idx (call.newBucket_lockVersion offset))
    · cases tried
      exact .refl memory

private theorem rewrites_kickChain (bucketCount kicks : ℕ) (memory : ClientMemory) (curIdx : ℕ)
    (cur : InsertCall) : Rewrites memory (kickChain bucketCount kicks memory curIdx cur).1 := by
  induction kicks generalizing memory curIdx cur with
  | zero => exact .refl memory
  | succ kicks ih =>
    rw [kickChain]
    dsimp only
    generalize (if curIdx = (memory.bucket curIdx).keyHash.toNat % bucketCount then _ else _) = altIdx
    split
    · exact .refl memory
    · split
      · exact .refl memory
      · split
        · next written => exact rewrites_write written
        · next middle written =>
            refine (rewrites_write written).trans ?_
            split
            · split
              · next moved => exact rewrites_write moved
              · next moved => exact rewrites_write moved
            · exact ih middle _ _

/-- Every outcome of an insertion, failures half way included. -/
theorem rewrites_insert (call : InsertCall) (memory : ClientMemory) (bucketCount : ℕ) :
    Rewrites memory (ClientWriter.insert call memory bucketCount).1 := by
  simp only [ClientWriter.insert]
  split
  · next tried => exact rewrites_tryInsertAt tried
  · next tried => exact rewrites_tryInsertAt tried
  · next middle tried =>
      refine (rewrites_tryInsertAt tried).trans ?_
      split
      · next again => exact rewrites_tryInsertAt again
      · next again => exact rewrites_tryInsertAt again
      · next again =>
          exact (rewrites_tryInsertAt again).trans (rewrites_kickChain bucketCount _ _ _ call)

end Rewriting

/-- The outcomes that correspond: inserted and `Ok`, or the table is full for both. -/
def SameOutcome (client : Except RdmaError WriteResult) (engine : Except CuckooError Unit) : Prop :=
  (∃ idx, client = .ok (.inserted idx)) ∧ engine = .ok () ∨
    client = .ok .tableFull ∧ engine = .error .tableFull

theorem SameOutcome.inserted_iff {client : Except RdmaError WriteResult}
    {engine : Except CuckooError Unit} (same : SameOutcome client engine) :
    (∃ idx, client = .ok (.inserted idx)) ↔ engine = .ok () := by
  rcases same with ⟨inserted, rfl⟩ | ⟨rfl, rfl⟩
  · exact iff_of_true inserted rfl
  · exact iff_of_false (by rintro ⟨_, ⟨⟩⟩) nofun

theorem SameOutcome.tableFull_iff {client : Except RdmaError WriteResult}
    {engine : Except CuckooError Unit} (same : SameOutcome client engine) :
    client = .ok .tableFull ↔ engine = .error .tableFull := by
  rcases same with ⟨⟨_, rfl⟩, rfl⟩ | ⟨rfl, rfl⟩
  · exact iff_of_false nofun nofun
  · exact iff_of_true rfl rfl

section Chains

variable (largeObjects : Option LargeObjectRegion)

/-- A chain that carries an Inline entry runs in step with the engine's, unless it meets an Extent
occupant. -/
theorem kickChain_inline (kicks : ℕ) {table : CuckooTable} (unlocked : Unlocked table) {curIdx : ℕ}
    {cur : InsertCall} (mode : cur.mode = .inline) (taken : (table.bucket curIdx).isFree = false) :
    let client := kickChain table.bucketCount kicks (memoryOf table largeObjects) curIdx cur
    let engine := table.kickChain kicks curIdx (InlineEntry cur)
    client.1 = memoryOf engine.1 largeObjects ∧ SameOutcome client.2 engine.2 ∨
      client.2 = .ok .tableFull ∧ ∃ idx, (table.bucket idx).isFree = false ∧
        (table.bucket idx).isExtent = true := by
  induction kicks generalizing table curIdx cur with
  | zero => exact .inl ⟨rfl, .inr ⟨rfl, rfl⟩⟩
  | succ kicks ih =>
    intro client engine
    cases extent : (table.bucket curIdx).isExtent with
    | true =>
      refine .inr ⟨?_, curIdx, taken, extent⟩
      simp only [client, kickChain, bucket_memoryOf, unlocked curIdx, extent]
      rfl
    | false =>
      have round : client = _ := kickChain_round (unlocked curIdx) extent (write_inline mode)
      simp only at round
      split at round
      · next vacant =>
          have done : engine = _ := if_pos vacant
          rw [round, done]
          exact .inl ⟨rfl, .inl ⟨⟨_, rfl⟩, rfl⟩⟩
      · next full =>
          have onward : engine = _ := if_neg full
          have writtenUnlocked := unlocked.writeSlot curIdx (InlineEntry cur)
          have carries : (displacedCall (table.bucket curIdx)).mode = .inline := rfl
          have later := ih writtenUnlocked carries (Bool.eq_false_iff.mpr full)
          rw [inlineEntry_displacedCall extent] at later
          rw [round, onward]
          refine later.imp_right fun ⟨gaveUp, idx, occupied, isExtent⟩ => ⟨gaveUp, idx, ?_⟩
          rcases table.bucket_setBucket_or curIdx idx (InlineEntry cur).toBucket with
            same | ⟨_, stored⟩
          · rw [CuckooTable.writeSlot, same] at occupied isExtent
            exact ⟨occupied, isExtent⟩
          · rw [CuckooTable.writeSlot, stored] at isExtent
            exact absurd isExtent (by rw [isExtent_inlineEntry]; decide)

/-- An Inline insertion of a key that is not live in its homes is the engine's, unless an Extent
entry is live. -/
theorem insert_inline {table : CuckooTable} (unlocked : Unlocked table)
    (kicks : table.maxKick = maxKick) {call : InsertCall} (mode : call.mode = .inline)
    (missing : table.findKeyIdx call.key = none) :
    let client := ClientWriter.insert call (memoryOf table largeObjects) table.bucketCount
    let engine := table.insertRaw (InlineEntry call)
    client.1 = memoryOf engine.1 largeObjects ∧ SameOutcome client.2 engine.2 ∨
      client.2 = .ok .tableFull ∧ ∃ idx, (table.bucket idx).isFree = false ∧
        (table.bucket idx).isExtent = true := by
  intro client engine
  cases first : (table.bucket (table.h1 call.key.hash)).isFree with
  | true =>
    have left : client = _ := insert_first (tryInsertAt_inline mode (unlocked _) first)
    have right : engine = _ := insertRaw_first missing first
    rw [left, right]
    exact .inl ⟨rfl, .inl ⟨⟨_, rfl⟩, rfl⟩⟩
  | false =>
    cases second : (table.bucket (table.h2 call.key.hash)).isFree with
    | true =>
      have left : client = _ := insert_second (tryInsertAt_taken (unlocked _) first)
        (tryInsertAt_inline mode (unlocked _) second)
      have right : engine = _ := insertRaw_second missing first second
      rw [left, right]
      exact .inl ⟨rfl, .inl ⟨⟨_, rfl⟩, rfl⟩⟩
    | false =>
      have left : client = _ := insert_kick (tryInsertAt_taken (unlocked _) first)
        (tryInsertAt_taken (unlocked _) second)
      have right : engine = _ := insertRaw_kick missing first second
      rw [left, right, kicks]
      exact kickChain_inline largeObjects _ unlocked mode first

end Chains

/-- On a bucket array without locked buckets whose live entries are all Inline, the Inline insertion of
a key that is not live in its homes leaves the buckets that the engine leaves with sixteen kicks, and
reports the same outcome. -/
theorem client_chain_eq_engine_chain (buckets : List HashBucket)
    (powerOfTwo : buckets.length.isPowerOfTwo) (_two : 2 ≤ buckets.length)
    (unlocked : ∀ bucket ∈ buckets, bucket.isLocked = false)
    (allInline : ∀ bucket ∈ buckets, bucket.isFree = false → bucket.isInline = true)
    (largeObjects : Option LargeObjectRegion) (key : HashedKey) (nonzero : key.hash ≠ 0) (value : Bytes) :
    let table : CuckooTable := ⟨buckets.length, 16, buckets, rfl, powerOfTwo⟩
    table.answers key (table.h1 key.hash) = false → table.answers key (table.h2 key.hash) = false →
    let client := ClientWriter.insert ⟨key, value, .inline⟩ ⟨buckets, largeObjects⟩ buckets.length
    let engine := table.insert key value .inline
    client.1.buckets = engine.1.buckets ∧
      ((∃ idx, client.2 = .ok (.inserted idx)) ↔ engine.2 = .ok ()) ∧
      (client.2 = .ok .tableFull ↔ engine.2 = .error .tableFull) := by
  intro table notFirst notSecond client engine
  have everywhere : ∀ {property : HashBucket → Prop}, (∀ bucket ∈ buckets, property bucket) →
      property HashBucket.zeroed → ∀ idx, property (table.bucket idx) := by
    intro property all zero idx
    by_cases bound : idx < buckets.length
    · rw [table.bucket_eq_getElem bound]
      exact all _ (List.getElem_mem bound)
    · rw [CuckooTable.bucket, List.getD_eq_default _ _ (Nat.not_lt.mp bound)]
      exact zero
  have allUnlocked : Unlocked table := everywhere unlocked (by decide)
  have noExtent := everywhere allInline (by decide)
  have missing : table.findKeyIdx key = none := by
    simp only [CuckooTable.findKeyIdx, List.find?_cons, List.find?_nil, notFirst, notSecond]
  have stored : engine = table.insertRaw (InlineEntry ⟨key, value, .inline⟩) := if_neg nonzero
  have compared : client.1 = memoryOf _ largeObjects ∧ SameOutcome client.2 _ ∨ _ :=
    insert_inline largeObjects allUnlocked rfl rfl missing
  rcases compared with ⟨same, outcome⟩ | ⟨_, idx, occupied, extent⟩
  · rw [stored]
    exact ⟨congrArg ClientMemory.buckets same, outcome.inserted_iff, outcome.tableFull_iff⟩
  · have inline_ := noExtent idx occupied
    rw [isInline_eq, extent] at inline_
    contradiction

/-- Both homes of the key are taken, and two occupants move before a slot is free. -/
theorem client_chain_eq_engine_chain_displacing :
    let stored := fun hash : BitVec 64 => (InlineEntry ⟨⟨hash, zeros 16⟩, [1], .inline⟩).toBucket
    let buckets := [stored 8, stored 2, HashBucket.zeroed, HashBucket.zeroed]
    let client := ClientWriter.insert ⟨⟨4, zeros 16⟩, [7], .inline⟩ ⟨buckets, none⟩ 4
    let engine := (⟨4, 16, buckets, rfl, ⟨2, rfl⟩⟩ : CuckooTable).insert ⟨4, zeros 16⟩ [7] .inline
    client.1.buckets = engine.1.buckets ∧
      ((∃ idx, client.2 = .ok (.inserted idx)) ↔ engine.2 = .ok ()) ∧
      (client.2 = .ok .tableFull ↔ engine.2 = .error .tableFull) := by
  intro stored buckets
  exact client_chain_eq_engine_chain buckets ⟨2, rfl⟩ (by decide) (by decide) (by decide) none
    ⟨4, zeros 16⟩ (by decide) [7] (by decide +kernel) (by decide +kernel)

end Rdmas.Soundness
