import Rdmas.Math.SlotArray
import Rdmas.Model.Cuckoo

/-! # Conservation of live entries

A bucket is live when it is neither empty nor a tombstone. Every table operation is described by
what it does to the multiset of live entries: a kick chain trades the entry it was given for a free
slot or for the entry left in its hand, and nothing else changes. Together with placement (each live
entry sits in a home of its key) and distinct keys, the multiset determines every lookup.
-/

namespace Rdmas.Soundness

open Rdmas.Model SlotArray

/-- The entry of a live bucket. -/
def entryOf (bucket : HashBucket) : Option Entry :=
  if bucket.isFree then none else some bucket.toEntry

/-- The live entries of a table, with multiplicity. -/
def liveEntries (table : CuckooTable) : Multiset Entry := contents entryOf table.buckets

/-- One of the two buckets a key may live in. -/
def IsHome (table : CuckooTable) (key : HashedKey) (idx : ℕ) : Prop :=
  idx = table.h1 key.hash ∨ idx = table.h2 key.hash

/-- Every live bucket sits in one of its key's two homes. -/
def Placed (table : CuckooTable) : Prop :=
  ∀ idx < table.bucketCount, ∀ entry, entryOf (table.bucket idx) = some entry →
    IsHome table entry.key idx

/-- No key is live twice. -/
def DistinctKeys (table : CuckooTable) : Prop := ((liveEntries table).map Entry.key).Nodup

/-- The table invariant: enough buckets, placement, and distinct keys. -/
structure WellPlaced (table : CuckooTable) : Prop where
  two : 2 ≤ table.bucketCount
  placed : Placed table
  distinct : DistinctKeys table

theorem entryOf_eq_none {bucket : HashBucket} : entryOf bucket = none ↔ bucket.isFree = true := by
  unfold entryOf
  split <;> simp_all

theorem entryOf_eq_some {bucket : HashBucket} {entry : Entry} :
    entryOf bucket = some entry ↔ bucket.isFree = false ∧ bucket.toEntry = entry := by
  unfold entryOf
  split <;> simp_all

/-- A live bucket never carries the reserved hash. -/
theorem hash_ne_zero_of_live {bucket : HashBucket} {entry : Entry}
    (live : entryOf bucket = some entry) : entry.key.hash ≠ 0 := by
  obtain ⟨occupied, rfl⟩ := entryOf_eq_some.mp live
  intro zero
  change bucket.keyHash = 0 at zero
  cases tomb : bucket.isTombstone <;>
    simp [HashBucket.isFree, HashBucket.isEmpty, zero, tomb] at occupied

theorem toBucket_isTombstone (entry : Entry) : entry.toBucket.isTombstone = false :=
  LockWord.isTombstone_modeBits entry.mode

theorem toBucket_mode (entry : Entry) : entry.toBucket.mode = entry.mode :=
  LockWord.mode_modeBits entry.mode

theorem toBucket_isFree {entry : Entry} (nonzero : entry.key.hash ≠ 0) :
    entry.toBucket.isFree = false := by
  have hash : entry.toBucket.keyHash ≠ 0 := nonzero
  simp only [HashBucket.isFree, HashBucket.isEmpty, toBucket_isTombstone]
  simpa using hash

/-- A written slot is live and holds exactly the written entry. -/
theorem entryOf_toBucket {entry : Entry} (nonzero : entry.key.hash ≠ 0) :
    entryOf entry.toBucket = some entry := by
  refine entryOf_eq_some.mpr ⟨toBucket_isFree nonzero, ?_⟩
  simp only [HashBucket.toEntry, toBucket_mode]
  rfl

private theorem entryOf_markTombstone (bucket : HashBucket) : entryOf bucket.markTombstone = none :=
  entryOf_eq_none.mpr (by simp [HashBucket.isFree])

theorem entryOf_zeroed : entryOf HashBucket.zeroed = none := by decide

section Slots

variable {table : CuckooTable} {idx : ℕ}

theorem altIdx_isHome (table : CuckooTable) (curIdx : ℕ) (occupant : Entry) :
    IsHome table occupant.key (table.altIdx curIdx occupant) := by
  unfold CuckooTable.altIdx
  split
  · exact .inr rfl
  · exact .inl rfl

theorem mem_homes {key : HashedKey} :
    idx ∈ [table.h1 key.hash, table.h2 key.hash] ↔ IsHome table key idx := by
  rw [List.mem_cons, List.mem_singleton, IsHome]

theorem IsHome.lt {key : HashedKey} (two : 2 ≤ table.bucketCount) (home : IsHome table key idx) :
    idx < table.bucketCount := by
  rcases home with rfl | rfl
  · exact table.h1_lt _
  · exact table.h2_lt two _

/-- Storing a bucket trades the old entry of its slot for the new one. -/
theorem liveEntries_setBucket (bound : idx < table.bucketCount) (bucket : HashBucket) :
    liveEntries (table.setBucket idx bucket) + held entryOf (table.bucket idx) =
      liveEntries table + held entryOf bucket := by
  rw [← table.sized] at bound
  rw [table.bucket_eq_getElem bound]
  exact contents_set bound bucket

theorem mem_liveEntries {entry : Entry} :
    entry ∈ liveEntries table ↔
      ∃ idx < table.bucketCount, entryOf (table.bucket idx) = some entry := by
  rw [liveEntries, mem_contents]
  constructor
  · rintro ⟨idx, bound, live⟩
    exact ⟨idx, table.sized ▸ bound, by rwa [table.bucket_eq_getElem bound]⟩
  · rintro ⟨idx, bound, live⟩
    rw [← table.sized] at bound
    exact ⟨idx, bound, by rwa [← table.bucket_eq_getElem bound]⟩

/-- Overwriting a live slot puts its occupant in hand. -/
theorem liveEntries_writeSlot_live {entry occupant : Entry} (bound : idx < table.bucketCount)
    (nonzero : entry.key.hash ≠ 0) (live : entryOf (table.bucket idx) = some occupant) :
    liveEntries (table.writeSlot idx entry) + {occupant} = liveEntries table + {entry} := by
  have trade := liveEntries_setBucket bound entry.toBucket
  rwa [held_some live, held_some (entryOf_toBucket nonzero)] at trade

/-- Filling a free slot adds the entry. -/
theorem liveEntries_writeSlot_free {entry : Entry} (bound : idx < table.bucketCount)
    (nonzero : entry.key.hash ≠ 0) (vacant : (table.bucket idx).isFree = true) :
    liveEntries (table.writeSlot idx entry) = liveEntries table + {entry} := by
  have trade := liveEntries_setBucket bound entry.toBucket
  rwa [held_none (entryOf_eq_none.mpr vacant), held_some (entryOf_toBucket nonzero), add_zero] at trade

theorem Placed.writeSlot {entry : Entry} (placed : Placed table) (bound : idx < table.bucketCount)
    (home : IsHome table entry.key idx) : Placed (table.writeSlot idx entry) := by
  intro query queryBound other live
  rw [CuckooTable.writeSlot, table.bucket_setBucket bound] at live
  split at live
  · next same =>
      subst query
      obtain ⟨_, rfl⟩ := entryOf_eq_some.mp live
      exact home
  · exact placed query queryBound other live

/-- A tombstone drops the entry of its slot. -/
theorem liveEntries_markTombstone (bound : idx < table.bucketCount) :
    liveEntries (table.setBucket idx (table.bucket idx).markTombstone) +
      held entryOf (table.bucket idx) = liveEntries table := by
  rw [liveEntries_setBucket bound, held_none (entryOf_markTombstone _), add_zero]

theorem Placed.markTombstone (placed : Placed table) (bound : idx < table.bucketCount) :
    Placed (table.setBucket idx (table.bucket idx).markTombstone) := by
  intro query queryBound other live
  rw [table.bucket_setBucket bound] at live
  split at live
  · rw [entryOf_markTombstone] at live
    contradiction
  · exact placed query queryBound other live

theorem DistinctKeys.position_unique {left right : ℕ} {entry other : Entry}
    (distinct : DistinctKeys table) (leftBound : left < table.bucketCount)
    (rightBound : right < table.bucketCount) (live : entryOf (table.bucket left) = some entry)
    (otherLive : entryOf (table.bucket right) = some other) (same : entry.key = other.key) :
    left = right := by
  rw [← table.sized] at leftBound rightBound
  rw [table.bucket_eq_getElem leftBound] at live
  rw [table.bucket_eq_getElem rightBound] at otherLive
  exact SlotArray.position_unique Entry.key distinct leftBound rightBound live otherLive same

end Slots

/-- The entry a kick chain is left with when its kicks are exhausted. -/
def leftInHand (table : CuckooTable) : ℕ → ℕ → Entry → Option Entry
  | 0, _, cur => some cur
  | kicks + 1, curIdx, cur =>
      let occupant := (table.bucket curIdx).toEntry
      let written := table.writeSlot curIdx cur
      let altIdx := table.altIdx curIdx occupant
      if (written.bucket altIdx).isFree then none else leftInHand written kicks altIdx occupant

theorem kickChain_bucketCount {table : CuckooTable} (kicks curIdx : ℕ) (cur : Entry) :
    (table.kickChain kicks curIdx cur).1.bucketCount = table.bucketCount := by
  induction kicks generalizing table curIdx cur with
  | zero => rfl
  | succ kicks ih =>
    simp only [CuckooTable.kickChain]
    split
    · rfl
    · exact ih _ _

/-- What a kick chain does, from any live slot: the entry is added, and the one left in hand, if any,
is gone. Placement survives. -/
theorem kickChain_spec (kicks : ℕ) {table : CuckooTable} (two : 2 ≤ table.bucketCount)
    (placed : Placed table) {curIdx : ℕ} {cur occupant : Entry}
    (live : entryOf (table.bucket curIdx) = some occupant) (home : IsHome table cur.key curIdx)
    (nonzero : cur.key.hash ≠ 0) :
    Placed (table.kickChain kicks curIdx cur).1 ∧
    (table.kickChain kicks curIdx cur).2 =
      (leftInHand table kicks curIdx cur).elim (.ok ()) (fun _ => .error .tableFull) ∧
    liveEntries (table.kickChain kicks curIdx cur).1 +
      ((leftInHand table kicks curIdx cur).toList : Multiset Entry) = liveEntries table + {cur} := by
  induction kicks generalizing table curIdx cur occupant with
  | zero => exact ⟨placed, rfl, rfl⟩
  | succ kicks ih =>
    have bound := home.lt two
    have snapshot : (table.bucket curIdx).toEntry = occupant := (entryOf_eq_some.mp live).2
    have occupantNonzero := hash_ne_zero_of_live live
    have writtenPlaced := placed.writeSlot bound home
    have trade := liveEntries_writeSlot_live bound nonzero live
    -- The alternate is a home of the occupant in the written table too: only buckets changed.
    have altHome : IsHome (table.writeSlot curIdx cur) occupant.key (table.altIdx curIdx occupant) :=
      altIdx_isHome table curIdx occupant
    have writtenTwo : 2 ≤ (table.writeSlot curIdx cur).bucketCount := two
    have altBound := altHome.lt writtenTwo
    simp only [CuckooTable.kickChain, leftInHand, snapshot]
    split
    · next vacant =>
        refine ⟨writtenPlaced.writeSlot altBound altHome, rfl, ?_⟩
        rw [liveEntries_writeSlot_free altBound occupantNonzero vacant, trade]
        exact add_zero _
    · next full =>
        obtain ⟨next, nextLive⟩ : ∃ next, entryOf ((table.writeSlot curIdx cur).bucket
            (table.altIdx curIdx occupant)) = some next :=
          ⟨_, entryOf_eq_some.mpr ⟨by simpa using full, rfl⟩⟩
        rw [← trade]
        exact ih writtenTwo writtenPlaced nextLive altHome occupantNonzero

section Lookup

variable {table : CuckooTable} {key : HashedKey} {idx : ℕ}

theorem answers_eq_true : table.answers key idx = true ↔
    (table.bucket idx).toEntry.key = key ∧ (table.bucket idx).isTombstone = false := by
  rcases key with ⟨hash, digest⟩
  simp [CuckooTable.answers, HashBucket.matchesKey, HashBucket.toEntry]

/-- For a real key, answering means being live with that key. -/
theorem answers_iff (nonzero : key.hash ≠ 0) :
    table.answers key idx = true ↔
      ∃ entry, entryOf (table.bucket idx) = some entry ∧ entry.key = key := by
  rw [answers_eq_true]
  constructor
  · rintro ⟨rfl, alive⟩
    refine ⟨(table.bucket idx).toEntry, entryOf_eq_some.mpr ⟨?_, rfl⟩, rfl⟩
    have stored : (table.bucket idx).keyHash ≠ 0 := nonzero
    simp only [HashBucket.isFree, HashBucket.isEmpty, alive]
    simpa using stored
  · rintro ⟨entry, live, same⟩
    obtain ⟨occupied, rfl⟩ := entryOf_eq_some.mp live
    simp only [HashBucket.isFree, Bool.or_eq_false_iff] at occupied
    exact ⟨same, occupied.2⟩

theorem findKeyIdx_isHome (found : table.findKeyIdx key = some idx) : IsHome table key idx :=
  mem_homes.mp (List.mem_of_find?_eq_some found)

/-- A successful scan finds the live bucket of the key in one of its homes. -/
theorem findKeyIdx_eq_some (nonzero : key.hash ≠ 0) (found : table.findKeyIdx key = some idx) :
    IsHome table key idx ∧ ∃ entry, entryOf (table.bucket idx) = some entry ∧ entry.key = key :=
  ⟨findKeyIdx_isHome found, (answers_iff nonzero).mp (List.find?_some found)⟩

/-- A key that is not live anywhere is not found. -/
theorem findKeyIdx_of_absent (two : 2 ≤ table.bucketCount) (nonzero : key.hash ≠ 0)
    (absent : ∀ entry ∈ liveEntries table, entry.key ≠ key) : table.findKeyIdx key = none := by
  cases found : table.findKeyIdx key with
  | none => rfl
  | some idx =>
    obtain ⟨home, other, live, same⟩ := findKeyIdx_eq_some nonzero found
    exact absurd same (absent other (mem_liveEntries.mpr ⟨idx, home.lt two, live⟩))

/-- A failed scan of a well-placed table means the key is not live anywhere. -/
theorem findKeyIdx_eq_none (placed : Placed table) (nonzero : key.hash ≠ 0)
    (missing : table.findKeyIdx key = none) : ∀ entry ∈ liveEntries table, entry.key ≠ key := by
  rintro entry member rfl
  obtain ⟨idx, bound, live⟩ := mem_liveEntries.mp member
  have home := placed idx bound entry live
  exact List.find?_eq_none.mp missing idx (mem_homes.mpr home)
    ((answers_iff nonzero).mpr ⟨entry, live, rfl⟩)

/-- What `lookup` reports of an entry. -/
def Entry.result (entry : Entry) : LookupResult :=
  let (extentOffset, extentLength) := match entry.mode with
    | .inline => (0, 0)
    | .extent => HashBucket.extentRefOf entry.body
  ⟨entry.body.toList, entry.mode, extentOffset, extentLength⟩

theorem readBucketValue_eq (bucket : HashBucket) :
    CuckooTable.readBucketValue bucket = Entry.result bucket.toEntry := by
  cases extent : bucket.isExtent <;>
    simp [CuckooTable.readBucketValue, Entry.result, HashBucket.toEntry, HashBucket.mode, extent,
      HashBucket.extentRef]

/-- The live entries of a well-placed table determine every lookup. -/
theorem lookup_eq_some_iff (valid : WellPlaced table) (nonzero : key.hash ≠ 0) {result : LookupResult} :
    table.lookup key = some result ↔
      ∃ entry ∈ liveEntries table, entry.key = key ∧ Entry.result entry = result := by
  unfold CuckooTable.lookup
  constructor
  · intro success
    obtain ⟨idx, found, rfl⟩ := Option.map_eq_some_iff.mp success
    obtain ⟨home, entry, live, same⟩ := findKeyIdx_eq_some nonzero found
    refine ⟨entry, mem_liveEntries.mpr ⟨idx, home.lt valid.two, live⟩, same, ?_⟩
    rw [readBucketValue_eq, (entryOf_eq_some.mp live).2]
  · rintro ⟨entry, member, same, rfl⟩
    cases found : table.findKeyIdx key with
    | none => exact absurd same (findKeyIdx_eq_none valid.placed nonzero found entry member)
    | some idx =>
      obtain ⟨home, other, live, otherSame⟩ := findKeyIdx_eq_some nonzero found
      obtain ⟨position, bound, entryLive⟩ := mem_liveEntries.mp member
      obtain rfl := valid.distinct.position_unique bound (home.lt valid.two) entryLive live
        (same.trans otherSame.symm)
      rw [Option.map_some, readBucketValue_eq, (entryOf_eq_some.mp entryLive).2]

theorem lookup_eq_none_iff (valid : WellPlaced table) (nonzero : key.hash ≠ 0) :
    table.lookup key = none ↔ ∀ entry ∈ liveEntries table, entry.key ≠ key := by
  constructor
  · intro missing entry member same
    rw [(lookup_eq_some_iff valid nonzero).mpr ⟨entry, member, same, rfl⟩] at missing
    contradiction
  · intro absent
    cases success : table.lookup key with
    | none => rfl
    | some result =>
      obtain ⟨entry, member, same, _⟩ := (lookup_eq_some_iff valid nonzero).mp success
      exact absurd same (absent entry member)

end Lookup

section Operations

variable {table : CuckooTable}

theorem DistinctKeys.add_fresh {fresh : Entry} (distinct : DistinctKeys table)
    (absent : ∀ entry ∈ liveEntries table, entry.key ≠ fresh.key) :
    ((liveEntries table + {fresh}).map Entry.key).Nodup := by
  rw [Multiset.add_comm, Multiset.singleton_add, Multiset.map_cons, Multiset.nodup_cons]
  refine ⟨?_, distinct⟩
  intro member
  obtain ⟨entry, live, same⟩ := Multiset.mem_map.mp member
  exact absent entry live same

/-- The entry an insertion drops: the former entry of its key, or the one its kick chain is left with. -/
def displaced (table : CuckooTable) (entry : Entry) : Option Entry :=
  let homes := [table.h1 entry.key.hash, table.h2 entry.key.hash]
  match homes.find? (table.answers entry.key) with
  | some idx => entryOf (table.bucket idx)
  | none =>
    match homes.find? fun idx => (table.bucket idx).isFree with
    | some _ => none
    | none => leftInHand table table.maxKick (table.h1 entry.key.hash) entry

/-- An insertion of a real key trades what it displaces for its own entry. -/
theorem insertRaw_conserves (two : 2 ≤ table.bucketCount) (placed : Placed table) {entry : Entry}
    (nonzero : entry.key.hash ≠ 0) :
    Placed (table.insertRaw entry).1 ∧
    liveEntries (table.insertRaw entry).1 + ((displaced table entry).toList : Multiset Entry) =
      liveEntries table + {entry} := by
  simp only [CuckooTable.insertRaw, displaced]
  cases found : [table.h1 entry.key.hash, table.h2 entry.key.hash].find? (table.answers entry.key) with
  | some idx =>
    obtain ⟨home, occupant, live, _⟩ := findKeyIdx_eq_some nonzero found
    have bound := home.lt two
    refine ⟨placed.writeSlot bound home, ?_⟩
    simp only [live, Option.toList_some, Multiset.coe_singleton]
    exact liveEntries_writeSlot_live bound nonzero live
  | none =>
    cases free : [table.h1 entry.key.hash, table.h2 entry.key.hash].find? fun idx =>
        (table.bucket idx).isFree with
    | some idx =>
      have vacant : (table.bucket idx).isFree = true := by simpa using List.find?_some free
      have home := mem_homes.mp (List.mem_of_find?_eq_some free)
      have bound := home.lt two
      refine ⟨placed.writeSlot bound home, ?_⟩
      rw [liveEntries_writeSlot_free bound nonzero vacant]
      exact add_zero _
    | none =>
      have occupied : (table.bucket (table.h1 entry.key.hash)).isFree = false := by
        simpa using List.find?_eq_none.mp free _ List.mem_cons_self
      obtain ⟨placed, _, trade⟩ := kickChain_spec table.maxKick two placed
        (entryOf_eq_some.mpr ⟨occupied, rfl⟩) (.inl rfl) nonzero
      exact ⟨placed, trade⟩

theorem insertRaw_bucketCount (entry : Entry) :
    (table.insertRaw entry).1.bucketCount = table.bucketCount := by
  simp only [CuckooTable.insertRaw]
  split
  · rfl
  · split
    · rfl
    · exact kickChain_bucketCount _ _ _

/-- An insertion of a key that is not there fails exactly if it displaces an entry. -/
theorem insertRaw_outcome (two : 2 ≤ table.bucketCount) (placed : Placed table) {entry : Entry}
    (nonzero : entry.key.hash ≠ 0) (missing : table.findKeyIdx entry.key = none) :
    (table.insertRaw entry).2 =
      (displaced table entry).elim (.ok ()) fun _ => .error .tableFull := by
  rw [CuckooTable.findKeyIdx] at missing
  simp only [CuckooTable.insertRaw, displaced, missing]
  cases free : [table.h1 entry.key.hash, table.h2 entry.key.hash].find? fun idx =>
      (table.bucket idx).isFree with
  | some idx => rfl
  | none =>
    have occupied : (table.bucket (table.h1 entry.key.hash)).isFree = false := by
      simpa using List.find?_eq_none.mp free _ List.mem_cons_self
    exact (kickChain_spec table.maxKick two placed (entryOf_eq_some.mpr ⟨occupied, rfl⟩) (.inl rfl)
      nonzero).2.1

/-- What an insertion of a real key does to a well-placed table: it replaces the key's entry, or it
fails and the entry that was in hand at the end is lost. -/
theorem insertRaw_spec (valid : WellPlaced table) {entry : Entry} (nonzero : entry.key.hash ≠ 0) :
    WellPlaced (table.insertRaw entry).1 ∧
    liveEntries (table.insertRaw entry).1 + ((displaced table entry).toList : Multiset Entry) =
      liveEntries table + {entry} ∧
    (((table.insertRaw entry).2 = .ok () ∧ liveEntries (table.insertRaw entry).1 =
        (liveEntries table).filter (fun other => other.key ≠ entry.key) + {entry}) ∨
      ((table.insertRaw entry).2 = .error .tableFull ∧
        (∀ other ∈ liveEntries table, other.key ≠ entry.key) ∧
        ∃ lost, displaced table entry = some lost)) := by
  obtain ⟨placed, trade⟩ := insertRaw_conserves valid.two valid.placed nonzero
  have two : 2 ≤ (table.insertRaw entry).1.bucketCount := by
    rw [insertRaw_bucketCount]
    exact valid.two
  suffices rest : DistinctKeys (table.insertRaw entry).1 ∧ _ from ⟨⟨two, placed, rest.1⟩, trade, rest.2⟩
  cases found : table.findKeyIdx entry.key with
  | some idx =>
    -- The key is live: its slot is overwritten in place.
    obtain ⟨home, occupant, live, same⟩ := findKeyIdx_eq_some nonzero found
    rw [CuckooTable.findKeyIdx] at found
    have replaced : displaced table entry = some occupant := by simp only [displaced, found, live]
    have success : (table.insertRaw entry).2 = .ok () := by simp only [CuckooTable.insertRaw, found]
    obtain ⟨rest, split⟩ : ∃ rest, liveEntries table = rest + {occupant} := by
      obtain ⟨rest, eq⟩ := Multiset.exists_cons_of_mem
        (mem_liveEntries.mpr ⟨idx, home.lt valid.two, live⟩)
      exact ⟨rest, by rw [eq, Multiset.add_comm, Multiset.singleton_add]⟩
    have distinct := valid.distinct
    rw [DistinctKeys, split] at distinct
    have others := filter_ne_add_singleton Entry.key distinct
    rw [← split, same] at others
    have written : liveEntries (table.insertRaw entry).1 = rest + {entry} := by
      rw [replaced, Option.toList_some, Multiset.coe_singleton, split, add_right_comm] at trade
      exact add_right_cancel trade
    refine ⟨?_, .inl ⟨success, by rw [written, others]⟩⟩
    rw [DistinctKeys, written, Multiset.map_add, Multiset.map_singleton, ← same]
    rwa [Multiset.map_add, Multiset.map_singleton] at distinct
  | none =>
    have absent := findKeyIdx_eq_none valid.placed nonzero found
    have both := valid.distinct.add_fresh absent
    rw [← trade, Multiset.map_add] at both
    refine ⟨(Multiset.nodup_add.mp both).1, ?_⟩
    have outcome := insertRaw_outcome valid.two valid.placed nonzero found
    cases hand : displaced table entry with
    | none =>
      rw [hand] at outcome trade
      refine .inl ⟨outcome, ?_⟩
      rw [filter_ne_of_absent Entry.key absent, ← trade]
      exact (add_zero _).symm
    | some lost =>
      rw [hand] at outcome
      exact .inr ⟨outcome, absent, lost, rfl⟩

/-- A key that is nowhere in its homes goes to the first one if that is free. -/
theorem insertRaw_first {entry : Entry} (missing : table.findKeyIdx entry.key = none)
    (free : (table.bucket (table.h1 entry.key.hash)).isFree = true) :
    table.insertRaw entry = (table.writeSlot (table.h1 entry.key.hash) entry, .ok ()) := by
  rw [CuckooTable.findKeyIdx] at missing
  simp only [CuckooTable.insertRaw, missing, List.find?_cons, free]

/-- It goes to the second one if only that is free. -/
theorem insertRaw_second {entry : Entry} (missing : table.findKeyIdx entry.key = none)
    (taken : (table.bucket (table.h1 entry.key.hash)).isFree = false)
    (free : (table.bucket (table.h2 entry.key.hash)).isFree = true) :
    table.insertRaw entry = (table.writeSlot (table.h2 entry.key.hash) entry, .ok ()) := by
  rw [CuckooTable.findKeyIdx] at missing
  simp only [CuckooTable.insertRaw, missing, List.find?_cons, taken, free]

/-- It starts a kick chain if neither is. -/
theorem insertRaw_kick {entry : Entry} (missing : table.findKeyIdx entry.key = none)
    (taken : (table.bucket (table.h1 entry.key.hash)).isFree = false)
    (alsoTaken : (table.bucket (table.h2 entry.key.hash)).isFree = false) :
    table.insertRaw entry = table.kickChain table.maxKick (table.h1 entry.key.hash) entry := by
  rw [CuckooTable.findKeyIdx] at missing
  simp only [CuckooTable.insertRaw, missing, List.find?_cons, List.find?_nil, taken, alsoTaken]

/-- A kick chain leaves each bucket alone or stores an entry in it. -/
theorem kickChain_bucket (kicks curIdx : ℕ) (cur : Entry) (idx : ℕ) :
    (table.kickChain kicks curIdx cur).1.bucket idx = table.bucket idx ∨
      ∃ entry : Entry, (table.kickChain kicks curIdx cur).1.bucket idx = entry.toBucket := by
  induction kicks generalizing table curIdx cur with
  | zero => exact .inl rfl
  | succ kicks ih =>
    have first := table.bucket_setBucket_or curIdx idx cur.toBucket
    simp only [CuckooTable.kickChain]
    split
    · rcases (table.writeSlot curIdx cur).bucket_setBucket_or _ idx
        (table.bucket curIdx).toEntry.toBucket with same | ⟨_, stored⟩
      · rw [CuckooTable.writeSlot, same]
        exact first.imp_right fun stored => ⟨cur, stored.2⟩
      · exact .inr ⟨_, stored⟩
    · rcases ih (table.altIdx curIdx (table.bucket curIdx).toEntry) (table.bucket curIdx).toEntry with
        same | stored
      · rw [same]
        exact first.imp_right fun stored => ⟨cur, stored.2⟩
      · exact .inr stored

theorem insertRaw_bucket (entry : Entry) (idx : ℕ) :
    (table.insertRaw entry).1.bucket idx = table.bucket idx ∨
      ∃ stored : Entry, (table.insertRaw entry).1.bucket idx = stored.toBucket := by
  simp only [CuckooTable.insertRaw]
  split
  · exact (table.bucket_setBucket_or _ idx _).imp_right fun stored => ⟨entry, stored.2⟩
  · split
    · exact (table.bucket_setBucket_or _ idx _).imp_right fun stored => ⟨entry, stored.2⟩
    · exact kickChain_bucket _ _ _ idx

/-- A deletion leaves each bucket alone or marks the one it found. -/
theorem delete_bucket (key : HashedKey) (idx : ℕ) :
    (table.delete key).1.bucket idx = table.bucket idx ∨
      table.findKeyIdx key = some idx ∧
        (table.delete key).1.bucket idx = (table.bucket idx).markTombstone := by
  unfold CuckooTable.delete
  split
  · next home found =>
      rcases table.bucket_setBucket_or home idx (table.bucket home).markTombstone with
        same | ⟨rfl, stored⟩
      · exact .inl same
      · exact .inr ⟨found, stored⟩
  · exact .inl rfl

theorem key_ne_of_hash_eq_zero {key : HashedKey} (zero : key.hash = 0) :
    ∀ entry ∈ liveEntries table, entry.key ≠ key := by
  rintro entry member rfl
  obtain ⟨idx, _, live⟩ := mem_liveEntries.mp member
  exact hash_ne_zero_of_live live zero

/-- A slot that answers for the reserved hash holds no entry. -/
theorem held_of_hash_eq_zero {key : HashedKey} {idx : ℕ} (zero : key.hash = 0)
    (found : table.findKeyIdx key = some idx) : held entryOf (table.bucket idx) = 0 := by
  obtain ⟨same, _⟩ := answers_eq_true.mp (List.find?_some found)
  have stored : (table.bucket idx).keyHash = 0 := (congrArg HashedKey.hash same).trans zero
  exact held_none (entryOf_eq_none.mpr (by simp [HashBucket.isFree, HashBucket.isEmpty, stored]))

/-- The live entries after a deletion: every entry of the key is gone, and nothing else. A
zero-hash key can match an empty bucket; tombstoning it changes no entry. -/
theorem liveEntries_delete (valid : WellPlaced table) (key : HashedKey) :
    liveEntries (table.delete key).1 =
      (liveEntries table).filter (fun other => other.key ≠ key) := by
  unfold CuckooTable.delete
  split
  · next idx found =>
      have bound := (findKeyIdx_isHome found).lt valid.two
      have dropped := liveEntries_markTombstone bound
      by_cases zero : key.hash = 0
      · rw [held_of_hash_eq_zero zero found, add_zero] at dropped
        rw [filter_ne_of_absent Entry.key (key_ne_of_hash_eq_zero zero), dropped]
      · obtain ⟨_, entry, live, rfl⟩ := findKeyIdx_eq_some zero found
        rw [held_some live] at dropped
        have distinct := valid.distinct
        rw [DistinctKeys, ← dropped] at distinct
        rw [← dropped, filter_ne_add_singleton Entry.key distinct]
  · next missing =>
      symm
      by_cases zero : key.hash = 0
      · exact filter_ne_of_absent Entry.key (key_ne_of_hash_eq_zero zero)
      · exact filter_ne_of_absent Entry.key (findKeyIdx_eq_none valid.placed zero missing)

theorem WellPlaced.delete (valid : WellPlaced table) (key : HashedKey) :
    WellPlaced (table.delete key).1 := by
  have distinct : DistinctKeys (table.delete key).1 := by
    rw [DistinctKeys, liveEntries_delete valid key]
    exact Multiset.nodup_of_le (Multiset.map_le_map (Multiset.filter_le _ _)) valid.distinct
  revert distinct
  unfold CuckooTable.delete
  split
  · next idx found =>
      intro distinct
      exact ⟨valid.two, valid.placed.markTombstone ((findKeyIdx_isHome found).lt valid.two), distinct⟩
  · exact fun _ => valid

/-- Deletion reports whether the key was live. -/
theorem delete_eq_true_iff (valid : WellPlaced table) {key : HashedKey} (nonzero : key.hash ≠ 0) :
    (table.delete key).2 = true ↔ ∃ entry ∈ liveEntries table, entry.key = key := by
  unfold CuckooTable.delete
  split
  · next idx found =>
      obtain ⟨home, entry, live, same⟩ := findKeyIdx_eq_some nonzero found
      simpa using ⟨entry, mem_liveEntries.mpr ⟨idx, home.lt valid.two, live⟩, same⟩
  · next missing =>
      simpa using findKeyIdx_eq_none valid.placed nonzero missing

theorem liveEntries_new (bucketCount maxKick : ℕ) (powerOfTwo : bucketCount.isPowerOfTwo) :
    liveEntries (CuckooTable.new bucketCount maxKick powerOfTwo) = 0 :=
  contents_replicate entryOf_zeroed bucketCount

theorem WellPlaced.new {bucketCount : ℕ} (maxKick : ℕ)
    (powerOfTwo : bucketCount.isPowerOfTwo) (two : 2 ≤ bucketCount) :
    WellPlaced (CuckooTable.new bucketCount maxKick powerOfTwo) := by
  have empty := liveEntries_new bucketCount maxKick powerOfTwo
  refine ⟨two, ?_, ?_⟩
  · intro idx bound entry live
    have member := mem_liveEntries.mpr ⟨idx, bound, live⟩
    simp [empty] at member
  · simp [DistinctKeys, empty]

end Operations

/-- The first home of a key that insertion finds free. -/
def firstHome (table : CuckooTable) (key : HashedKey) : Option ℕ :=
  [table.h1 key.hash, table.h2 key.hash].find? fun idx => (table.bucket idx).isFree

section FirstHome

variable {table : CuckooTable} {key : HashedKey} {idx : ℕ}

theorem isFree_of_firstHome (found : firstHome table key = some idx) :
    (table.bucket idx).isFree = true := by
  simpa using List.find?_some found

theorem firstHome_first (free : (table.bucket (table.h1 key.hash)).isFree = true) :
    firstHome table key = some (table.h1 key.hash) := by
  rw [firstHome, List.find?_cons, free]

theorem firstHome_second (full : firstHome table key ≠ some (table.h1 key.hash))
    (free : (table.bucket (table.h2 key.hash)).isFree = true) :
    firstHome table key = some (table.h2 key.hash) := by
  cases first : (table.bucket (table.h1 key.hash)).isFree with
  | true => exact absurd (firstHome_first first) full
  | false => rw [firstHome, List.find?_cons, first, List.find?_cons, free]

end FirstHome

end Rdmas.Soundness
