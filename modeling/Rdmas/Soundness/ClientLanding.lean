import Rdmas.Soundness.ClientFailure

/-! # Where local insertions land

A kick chain that succeeds ends with one move: the entry last displaced goes into its free alternate,
and the index of that alternate is what the insertion reports. The slots a chain displaces are checked
for the lock bit and the alternate is not, so a locked bucket whose key is still to be written is filled;
and the entry that lands there is in general not the one of the call.
-/

namespace Rdmas.Soundness

open Rdmas.Model LittleEndian FixedBytes SlotArray

/-- The move the walk of displaced entries ends with: the free slot it finds and the entry put there. -/
def landing (table : CuckooTable) (kicks curIdx : ℕ) (cur : Entry) : Option (ℕ × Entry) :=
  (kickWalk table kicks curIdx cur).2.landing

section Moves

variable {table : CuckooTable} {kicks curIdx idx query : ℕ} {cur moved : Entry}

/-- A bucket that is locked is in the array. -/
theorem lt_of_isLocked (locked : (table.bucket query).isLocked = true) : query < table.bucketCount := by
  by_contra beyond
  have phantom : table.bucket query = HashBucket.zeroed :=
    List.getD_eq_default _ _ (by rw [table.sized]; omega)
  rw [phantom] at locked
  exact absurd locked (by decide)

/-- The walk leaves every locked bucket as it is, but for the one it lands in. -/
theorem kickWalk_bucket_locked (kicks : ℕ) {table : CuckooTable} {curIdx : ℕ} {cur : Entry}
    (locked : (table.bucket query).isLocked = true)
    (elsewhere : ∀ moved, landing table kicks curIdx cur ≠ some (query, moved)) :
    (kickWalk table kicks curIdx cur).1.bucket query = table.bucket query := by
  induction kicks generalizing table curIdx cur with
  | zero => rfl
  | succ kicks ih =>
    rw [landing, kickWalk] at elsewhere
    rw [kickWalk]
    cases blocked : (table.bucket curIdx).isLocked || (table.bucket curIdx).isExtent with
    | true => rfl
    | false =>
      have unlocked := (Bool.or_eq_false_iff.mp blocked).1
      have apart : curIdx ≠ query := by
        rintro rfl
        exact absurd (unlocked.symm.trans locked) (by decide)
      have kept : (table.writeSlot curIdx cur).bucket query = _ := table.bucket_writeSlot_ne apart cur
      simp only [blocked, Bool.false_eq_true, if_false] at elsewhere ⊢
      split
      · next free =>
          rw [if_pos free] at elsewhere
          have misses : table.altIdx curIdx (table.bucket curIdx).toEntry ≠ query := fun lands =>
            elsewhere _ (by rw [lands]; rfl)
          exact (CuckooTable.bucket_writeSlot_ne _ misses _).trans kept
      · next full =>
          rw [if_neg full] at elsewhere
          rw [← kept] at locked
          exact (ih locked elsewhere).trans kept

/-- The slot the walk lands in holds the entry moved there. -/
theorem kickWalk_bucket_landing (kicks : ℕ) {table : CuckooTable} {curIdx : ℕ} {cur : Entry}
    (bound : idx < table.bucketCount) (lands : landing table kicks curIdx cur = some (idx, moved)) :
    (kickWalk table kicks curIdx cur).1.bucket idx = moved.toBucket := by
  induction kicks generalizing table curIdx cur with
  | zero => cases lands
  | succ kicks ih =>
    rw [landing, kickWalk] at lands
    rw [kickWalk]
    cases blocked : (table.bucket curIdx).isLocked || (table.bucket curIdx).isExtent with
    | true =>
      rw [blocked] at lands
      cases lands
    | false =>
      simp only [blocked, Bool.false_eq_true, if_false] at lands ⊢
      split at lands
      · next free =>
          cases lands
          have within : _ < (table.writeSlot curIdx cur).bucketCount := bound
          rw [if_pos free]
          exact CuckooTable.bucket_writeSlot_self _ within _
      · next full =>
          rw [if_neg full]
          exact ih bound lands

/-- From a taken slot the walk lands in a slot that was free before it: what it writes on its way is
never free again. -/
theorem landing_free (kicks : ℕ) {table : CuckooTable} (two : 2 ≤ table.bucketCount) {curIdx : ℕ}
    {cur : Entry} (bound : curIdx < table.bucketCount) (taken : (table.bucket curIdx).isFree = false)
    (nonzero : cur.key.hash ≠ 0) (lands : landing table kicks curIdx cur = some (idx, moved)) :
    (table.bucket idx).isFree = true := by
  induction kicks generalizing table curIdx cur with
  | zero => cases lands
  | succ kicks ih =>
    have before : ((table.writeSlot curIdx cur).bucket idx).isFree = true →
        (table.bucket idx).isFree = true := by
      intro free
      by_cases same : curIdx = idx
      · subst same
        rw [table.bucket_writeSlot_self bound, toBucket_isFree nonzero] at free
        cases free
      · rwa [table.bucket_writeSlot_ne same] at free
    rw [landing, kickWalk] at lands
    split at lands
    · cases lands
    · dsimp only at lands
      split at lands
      · next free =>
          cases lands
          exact before free
      · next full =>
          have home := altIdx_isHome table curIdx (table.bucket curIdx).toEntry
          exact before (@ih (table.writeSlot curIdx cur) two _ _ (home.lt two)
            (Bool.eq_false_iff.mpr full) (hash_toEntry_ne_zero taken) lands)

end Moves

/-- The insertion fills a locked bucket: it starts a chain, and the walk from the first home lands in
one. -/
def FillsLocked (table : CuckooTable) (largeObjects : Option LargeObjectRegion) (call : InsertCall) :
    Prop :=
  StartsChain table call ∧
    ∃ stored ∈ slotWrite table largeObjects call (table.h1 call.key.hash),
      ∃ move ∈ landing table ClientWriter.maxKick (table.h1 call.key.hash) stored.1,
        (table.bucket move.1).isLocked = true

/-- The insertion lands by a chain: both homes are passed over and the walk from the first finds a free
slot. -/
def LandsByChain (table : CuckooTable) (largeObjects : Option LargeObjectRegion) (call : InsertCall) :
    Prop :=
  StartsChain table call ∧
    ∃ stored ∈ slotWrite table largeObjects call (table.h1 call.key.hash),
      (landing table ClientWriter.maxKick (table.h1 call.key.hash) stored.1).isSome

/-- A live bucket that holds the key and the value of a call: the value itself, or the reference of the
extent that the call has allocated for it in the region. -/
structure HoldsWritten (call : InsertCall) (largeObjects : Option LargeObjectRegion)
    (bucket : HashBucket) (written : Option LargeObjectRegion) : Prop where
  live : bucket.isFree = false
  owner : bucket.matchesKey call.key.hash call.key.digest = true
  mode : bucket.mode = call.mode
  inlineValue : call.mode = .inline → bucket.inlineValue = CuckooTable.packBody call.value .inline
  extentRef : call.mode = .extent → ∃ region next offset, largeObjects = some region ∧
    region.allocate call.value = (next, some offset) ∧ written = some next ∧
      bucket.extentRef = (BitVec.ofNat 64 offset, BitVec.ofNat 64 call.value.length)

section Placed

variable {table : CuckooTable} {largeObjects : Option LargeObjectRegion} {call : InsertCall}
variable {placed : ClientMemory} {idx : ℕ}

private theorem holdsWritten_inlineEntry (nonzero : call.key.hash ≠ 0) (mode : call.mode = .inline) :
    HoldsWritten call largeObjects (InlineEntry call).toBucket largeObjects where
  live := toBucket_isFree nonzero
  owner := matchesKey_iff.mpr rfl
  mode := (toBucket_mode _).trans mode.symm
  inlineValue _ := rfl
  extentRef extent := by cases mode.symm.trans extent

private theorem holdsWritten_newBucket {region next : LargeObjectRegion} {offset : ℕ}
    (nonzero : call.key.hash ≠ 0) (mode : call.mode = .extent)
    (allocated : region.allocate call.value = (next, some offset)) :
    HoldsWritten call (some region) (call.newBucket offset) (some next) where
  live := by
    have hash : (call.newBucket offset).keyHash ≠ 0 := by
      rw [InsertCall.newBucket_keyHash]
      exact nonzero
    have lives : (call.newBucket offset).isTombstone = false := by
      rw [HashBucket.isTombstone, InsertCall.newBucket_lockVersion]
      exact LockWord.isTombstone_modeBits call.mode
    simp only [HashBucket.isFree, HashBucket.isEmpty, lives]
    simpa using hash
  owner := matchesKey_iff.mpr (by
    rw [HashBucket.toEntry, InsertCall.newBucket_keyHash, InsertCall.newBucket_keyOrDigest])
  mode := by
    rw [HashBucket.mode, HashBucket.isExtent, InsertCall.newBucket_lockVersion]
    exact LockWord.mode_modeBits call.mode
  inlineValue inline_ := by cases mode.symm.trans inline_
  extentRef _ := ⟨region, next, offset, rfl, allocated, rfl, extentRef_newBucket mode offset⟩

/-- A home that takes the call holds what the call wrote. -/
theorem holdsWritten_of_tryInsertAt (nonzero : call.key.hash ≠ 0) (bound : idx < table.bucketCount)
    (success : ClientWriter.tryInsertAt call (memoryOf table largeObjects) idx = (placed, .ok true)) :
    HoldsWritten call largeObjects (placed.bucket idx) placed.largeObjects := by
  have stored : ∀ (objects : Option LargeObjectRegion) (bucket : HashBucket),
      ((memoryOf table objects).setBucket idx bucket).bucket idx = bucket := by
    intro objects bucket
    have set : (table.setBucket idx bucket).bucket idx = _ := table.bucket_setBucket bound bucket
    rw [if_pos rfl] at set
    exact set
  rcases (tryInsertAt_eq_true success).2 with
    ⟨mode, rfl⟩ | ⟨mode, region, next, offset, rfl, allocated, rfl⟩
  · rw [stored]
    exact holdsWritten_inlineEntry nonzero mode
  · rw [stored]
    exact holdsWritten_newBucket nonzero mode allocated

/-- Without a chain the locked buckets stay as they are. -/
theorem bucket_locked_of_still (still : ¬ StartsChain table call)
    (locked : (table.bucket idx).isLocked = true) :
    (ClientWriter.insert call (memoryOf table largeObjects) table.bucketCount).1.bucket idx =
      table.bucket idx := by
  rcases insert_of_still still with ⟨home, placed, _, unlocked, direct, inserted⟩ | ⟨_, _, unchanged⟩
  · obtain ⟨_, entry, written, _, rfl⟩ := stores_of_tryInsertAt direct
    rw [inserted, bucket_memoryOf]
    refine table.bucket_writeSlot_ne ?_ entry
    rintro rfl
    exact absurd (unlocked.symm.trans locked) (by decide)
  · rw [unchanged, bucket_memoryOf]

end Placed

/-- A local insertion, whatever its result, leaves every locked bucket as it was exactly when its kick
chain does not land in one. -/
theorem insert_keeps_locked_buckets_iff (table : CuckooTable) (largeObjects : Option LargeObjectRegion)
    (call : InsertCall) :
    let insertion := ClientWriter.insert call ⟨table.buckets, largeObjects⟩ table.bucketCount
    (∀ idx, (table.bucket idx).isLocked = true → insertion.1.bucket idx = table.bucket idx) ↔
      ¬ FillsLocked table largeObjects call := by
  change (∀ idx, (table.bucket idx).isLocked = true →
    (ClientWriter.insert call (memoryOf table largeObjects) table.bucketCount).1.bucket idx =
      table.bucket idx) ↔ _
  by_cases starts : StartsChain table call
  · cases stored : slotWrite table largeObjects call (table.h1 call.key.hash) with
    | none =>
      refine iff_of_true (fun idx locked => ?_) ?_
      · obtain ⟨error, refused⟩ := starts.insert_refused stored
        rw [refused, bucket_memoryOf]
        refine table.bucket_writeSlot_ne ?_ _
        rintro rfl
        exact absurd (starts.unlocked.symm.trans locked) (by decide)
      · rintro ⟨_, _, write, _⟩
        exact Option.some_ne_none _ (write.symm.trans stored)
    | some write =>
      obtain ⟨entry, written⟩ := write
      rw [starts.follows stored]
      constructor
      · rintro keeps ⟨_, _, same, ⟨idx, moved⟩, lands, locked⟩
        cases stored.symm.trans same
        have filled := (keeps idx locked).symm.trans
          (kickWalk_bucket_landing ClientWriter.maxKick (lt_of_isLocked locked) lands)
        rw [filled] at locked
        exact absurd (locked.symm.trans (LockWord.isLocked_modeBits moved.mode)) (by decide)
      · intro clear idx locked
        exact kickWalk_bucket_locked ClientWriter.maxKick locked fun moved lands =>
          clear ⟨starts, _, stored, _, lands, locked⟩
  · exact iff_of_true (fun idx locked => bucket_locked_of_still starts locked) fun fills =>
      starts fills.1

/-- Two entries fill the homes of a third key, and the alternate of the first entry is locked by a
writer that has not stored its key yet. The chain takes that bucket for an empty one. -/
theorem insert_fills_locked_bucket :
    let stored := runTable (CuckooTable.new 4 16 ⟨2, rfl⟩)
      [.insert ⟨0x200000004, zeros 16⟩ [7] .inline, .insert ⟨1, zeros 16⟩ [8] .inline]
    let table := stored.setBucket 3 { HashBucket.zeroed with lockVersion := 1 }
    let insertion := ClientWriter.insert ⟨⟨8, zeros 16⟩, [9], .inline⟩ ⟨table.buckets, none⟩ 4
    (table.bucket 3).isLocked = true ∧ insertion.2 = .ok (.inserted 3) ∧
      (insertion.1.bucket 3).isLocked = false ∧ (insertion.1.bucket 3).keyHash = 0x200000004 := by
  intro stored table insertion
  refine ⟨?_, ?_, ?_, ?_⟩
  · decide +kernel
  · decide +kernel
  · decide +kernel
  · decide +kernel

section Reported

variable {table : CuckooTable} {largeObjects : Option LargeObjectRegion} {call : InsertCall}
variable {idx : ℕ}

/-- Both homes of a chain's key are taken when no bucket is locked. -/
theorem StartsChain.home_taken (starts : StartsChain table call) (unlocked : Unlocked table)
    (home : IsHome table call.key idx) : (table.bucket idx).isFree = false := by
  rcases home with rfl | rfl
  · exact starts.taken
  · refine starts.passed.resolve_left ?_
    rw [unlocked]
    decide

/-- A chain lands in a slot that is no home of its key. -/
theorem StartsChain.not_isHome (starts : StartsChain table call) (two : 2 ≤ table.bucketCount)
    (unlocked : Unlocked table) {entry moved : Entry} (nonzero : entry.key.hash ≠ 0)
    (lands : landing table ClientWriter.maxKick (table.h1 call.key.hash) entry = some (idx, moved)) :
    ¬ IsHome table call.key idx := by
  intro home
  have free := landing_free _ two (table.h1_lt call.key.hash) starts.taken nonzero lands
  exact absurd ((starts.home_taken unlocked home).symm.trans free) (by decide)

end Reported

/-- The bucket that a successful local insertion reports is a home of its key and holds the key with the
written value, exactly when the insertion does not land by a kick chain. -/
theorem reported_bucket_holds_key_iff (table : CuckooTable) (two : 2 ≤ table.bucketCount)
    (unlocked : Unlocked table) (largeObjects : Option LargeObjectRegion) (call : InsertCall)
    (nonzero : call.key.hash ≠ 0) :
    let insertion := ClientWriter.insert call ⟨table.buckets, largeObjects⟩ table.bucketCount
    (∀ idx, insertion.2 = .ok (.inserted idx) → IsHome table call.key idx ∧
      HoldsWritten call largeObjects (insertion.1.bucket idx) insertion.1.largeObjects) ↔
      ¬ LandsByChain table largeObjects call := by
  change (∀ idx,
    (ClientWriter.insert call (memoryOf table largeObjects) table.bucketCount).2 =
        .ok (.inserted idx) → IsHome table call.key idx ∧
      HoldsWritten call largeObjects
        ((ClientWriter.insert call (memoryOf table largeObjects) table.bucketCount).1.bucket idx)
        (ClientWriter.insert call (memoryOf table largeObjects) table.bucketCount).1.largeObjects) ↔ _
  by_cases starts : StartsChain table call
  · cases stored : slotWrite table largeObjects call (table.h1 call.key.hash) with
    | none =>
      obtain ⟨error, refused⟩ := starts.insert_refused stored
      refine iff_of_true (fun idx inserted => ?_) ?_
      · rw [refused] at inserted
        cases inserted
      · rintro ⟨_, _, write, _⟩
        exact Option.some_ne_none _ (write.symm.trans stored)
    | some write =>
      have outcome := congrArg Prod.snd (starts.follows stored)
      have real : write.1.key.hash ≠ 0 := (stores_of_slotWrite stored).key ▸ nonzero
      cases ends : (kickWalk table ClientWriter.maxKick (table.h1 call.key.hash) write.1).2 with
      | inHand lost =>
        rw [ends] at outcome
        refine iff_of_true (fun idx inserted => ?_) ?_
        · cases outcome.symm.trans inserted
        · rintro ⟨_, _, same, found⟩
          cases stored.symm.trans same
          rw [landing, ends] at found
          cases found
      | landed idx moved =>
        rw [ends] at outcome
        have lands := congrArg WalkEnd.landing ends
        refine iff_of_false (fun holds => ?_) fun clear => clear ⟨starts, write, stored, ?_⟩
        · exact starts.not_isHome two unlocked real lands (holds idx outcome).1
        · rw [landing, ends]
          rfl
  · refine iff_of_true (fun idx inserted => ?_) fun lands => starts lands.1
    rcases insert_of_still starts with ⟨slot, placed, home, _, direct, report⟩ | ⟨_, never, unchanged⟩
    · rw [report] at inserted ⊢
      cases inserted
      exact ⟨home, holdsWritten_of_tryInsertAt nonzero (home.lt two) direct⟩
    · rw [unchanged] at inserted
      exact absurd inserted (never idx)

/-- The first home is taken and the second is free. -/
theorem reported_bucket_of_second_home :
    let table := runTable (CuckooTable.new 4 16 ⟨2, rfl⟩) [.insert ⟨4, zeros 16⟩ [7] .inline]
    let call : InsertCall := ⟨⟨8, zeros 16⟩, [9], .inline⟩
    let insertion := ClientWriter.insert call ⟨table.buckets, none⟩ 4
    insertion.2 = .ok (.inserted 1) ∧ IsHome table call.key 1 ∧
      HoldsWritten call none (insertion.1.bucket 1) insertion.1.largeObjects := by
  intro table call insertion
  have count : table.bucketCount = 4 := bucketCount_runTable _
  have unlocked : Unlocked table := unlocked_runTable (unlocked_new 4 16 ⟨2, rfl⟩) _
  have second : (table.bucket (table.h2 8)).isLocked = false ∧
      (table.bucket (table.h2 8)).isFree = true := by decide +kernel
  have inserted : insertion.2 = .ok (.inserted 1) := by decide +kernel
  have holds := reported_bucket_holds_key_iff table (by rw [count]; decide) unlocked none call
    (by decide)
  rw [count] at holds
  refine ⟨inserted, holds.mpr ?_ 1 inserted⟩
  rintro ⟨starts, _⟩
  rcases starts.passed with locked | taken
  · exact absurd (second.1.symm.trans locked) (by decide)
  · exact absurd (second.2.symm.trans taken) (by decide)

/-- Two entries fill the homes of a third key. The chain moves the first of them to its alternate and
reports that one, which holds the wrong key and is no home of the inserted key. -/
theorem insert_reports_bucket_of_other_key :
    let table := runTable (CuckooTable.new 4 16 ⟨2, rfl⟩)
      [.insert ⟨0x200000004, zeros 16⟩ [7] .inline, .insert ⟨1, zeros 16⟩ [8] .inline]
    let insertion := ClientWriter.insert ⟨⟨8, zeros 16⟩, [9], .inline⟩ ⟨table.buckets, none⟩ 4
    WellPlaced table ∧ Unlocked table ∧ timesLive table.buckets ⟨8, zeros 16⟩ = 0 ∧
      insertion.2 = .ok (.inserted 3) ∧ table.h1 8 = 0 ∧ table.h2 8 = 1 ∧
      (insertion.1.bucket 3).keyHash = 0x200000004 ∧ (insertion.1.bucket 0).keyHash = 8 := by
  intro table insertion
  refine ⟨wellPlaced_runTable (.new 16 ⟨2, rfl⟩ (by decide)) _,
    unlocked_runTable (unlocked_new 4 16 ⟨2, rfl⟩) _, ?_, ?_, ?_, ?_, ?_, ?_⟩
  · decide +kernel
  · decide +kernel
  · decide +kernel
  · decide +kernel
  · decide +kernel
  · decide +kernel

end Rdmas.Soundness
