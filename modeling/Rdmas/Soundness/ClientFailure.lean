import Rdmas.Soundness.ClientOverwrite

/-! # Local insertions that fail

A failed insertion leaves the buckets as they are, unless its kick chain has started: the chain writes
as it walks and undoes nothing. Readers skip locked buckets, so what they see of a table is the table
with its locked buckets emptied, and the chain's balance is drawn up there: the call's entry is seen and
the entry left in hand is not.
-/

namespace Rdmas.Soundness

open Rdmas.Model LittleEndian FixedBytes ClientReader SlotArray ClientWriter

/-- What a reader sees of a bucket: nothing while it is locked. -/
def visibleBucket (bucket : HashBucket) : HashBucket :=
  if bucket.isLocked then HashBucket.zeroed else bucket

/-- A table with its locked buckets emptied. -/
def visible (table : CuckooTable) : CuckooTable :=
  { table with
    buckets := table.buckets.map visibleBucket
    sized := (List.length_map visibleBucket).trans table.sized }

section Visible

variable {table : CuckooTable} {key : HashedKey} {largeObjects : Option LargeObjectRegion}

private theorem visibleBucket_of_unlocked {bucket : HashBucket} (unlocked : bucket.isLocked = false) :
    visibleBucket bucket = bucket := by
  rw [visibleBucket, unlocked]
  rfl

private theorem visibleBucket_of_locked {bucket : HashBucket} (locked : bucket.isLocked = true) :
    visibleBucket bucket = HashBucket.zeroed := by
  rw [visibleBucket, locked]
  rfl

private theorem bucket_visible (table : CuckooTable) (idx : ℕ) :
    (visible table).bucket idx = visibleBucket (table.bucket idx) :=
  List.getD_map _ HashBucket.zeroed visibleBucket

private theorem unlocked_visible (table : CuckooTable) : Unlocked (visible table) := by
  intro idx
  rw [bucket_visible, visibleBucket]
  split
  · decide
  · next unlocked => exact Bool.eq_false_iff.mpr unlocked

private theorem entryOf_visibleBucket (bucket : HashBucket) (entry : Entry)
    (seen : entryOf (visibleBucket bucket) = some entry) : entryOf bucket = some entry := by
  rw [visibleBucket] at seen
  split at seen
  · cases entryOf_zeroed.symm.trans seen
  · exact seen

private theorem wellPlaced_visible (valid : WellPlaced table) : WellPlaced (visible table) where
  two := valid.two
  placed := by
    intro idx bound entry seen
    rw [bucket_visible] at seen
    exact valid.placed idx bound entry (entryOf_visibleBucket _ _ seen)
  distinct := Multiset.nodup_of_le
    (Multiset.map_le_map (contents_map_le entryOf_visibleBucket table.buckets)) valid.distinct

private theorem visible_writeSlot (table : CuckooTable) (idx : ℕ) (entry : Entry) :
    visible (table.writeSlot idx entry) = (visible table).writeSlot idx entry := by
  have stored : visibleBucket entry.toBucket = entry.toBucket :=
    visibleBucket_of_unlocked (LockWord.isLocked_modeBits entry.mode)
  simp only [visible, CuckooTable.writeSlot, CuckooTable.setBucket, List.map_set, stored]

/-- Readers do not tell a locked bucket from an empty one. -/
theorem get_visible (two : 2 ≤ table.bucketCount) (nonzero : key.hash ≠ 0) :
    ClientReader.get key (visible table).buckets largeObjects table.bucketCount =
      ClientReader.get key table.buckets largeObjects table.bucketCount := by
  have seen : ∀ idx, tryReadBucket key (visible table).buckets largeObjects idx =
      tryReadBucket key table.buckets largeObjects idx := by
    intro idx
    have slot : table.buckets.getD idx HashBucket.zeroed = table.bucket idx := rfl
    have shown : (visible table).buckets.getD idx HashBucket.zeroed = _ := bucket_visible table idx
    cases locked : (table.bucket idx).isLocked with
    | true =>
      have other : HashBucket.zeroed.matchesKey key.hash key.digest = false :=
        Bool.eq_false_iff.mpr fun held =>
          nonzero (congrArg HashedKey.hash (matchesKey_iff.mp held)).symm
      rw [visibleBucket_of_locked locked] at shown
      simp only [tryReadBucket, slot, shown, locked, other]
      rfl
    | false =>
      rw [visibleBucket_of_unlocked locked] at shown
      simp only [tryReadBucket, slot, shown]
  have shown : ClientReader.get key (visible table).buckets largeObjects (visible table).bucketCount = _ :=
    get_eq_or two nonzero
  rw [seen, seen] at shown
  exact shown.trans (get_eq_or two nonzero).symm

end Visible

/-- How a walk of displaced entries ends: the last of them is moved to a free slot, or it is left in
hand. -/
inductive WalkEnd where
  | landed (idx : ℕ) (moved : Entry)
  | inHand (lost : Entry)
deriving DecidableEq

namespace WalkEnd

/-- The last move: the free slot and the entry put there. -/
def landing : WalkEnd → Option (ℕ × Entry)
  | .landed idx moved => some (idx, moved)
  | .inHand _ => none

/-- The entry left in hand. -/
def lost : WalkEnd → Option Entry
  | .landed _ _ => none
  | .inHand lost => some lost

/-- What a chain reports of its end. -/
def report : WalkEnd → Except RdmaError WriteResult
  | .landed idx _ => .ok (.inserted idx)
  | .inHand _ => .ok .tableFull

end WalkEnd

/-- The client's walk of displaced entries, which writes as it goes: the table it leaves, and its end. It
gives up when the kicks are exhausted, at a locked slot and at an Extent occupant. -/
def kickWalk (table : CuckooTable) : ℕ → ℕ → Entry → CuckooTable × WalkEnd
  | 0, _, cur => (table, .inHand cur)
  | kicks + 1, curIdx, cur =>
      let occupant := table.bucket curIdx
      if occupant.isLocked || occupant.isExtent then (table, .inHand cur)
      else
        let written := table.writeSlot curIdx cur
        let altIdx := table.altIdx curIdx occupant.toEntry
        if (written.bucket altIdx).isFree then
          (written.writeSlot altIdx occupant.toEntry, .landed altIdx occupant.toEntry)
        else kickWalk written kicks altIdx occupant.toEntry

/-- A chain follows a walk: it leaves the table of the walk and reports its end. -/
def Follows (written : Option LargeObjectRegion) (client : ClientMemory × Except RdmaError WriteResult)
    (walk : CuckooTable × WalkEnd) : Prop :=
  client = (memoryOf walk.1 written, walk.2.report)

section Walks

variable {table : CuckooTable} {largeObjects written : Option LargeObjectRegion}
variable {kicks curIdx : ℕ} {cur : InsertCall} {entry : Entry}

theorem kickChain_blocked
    (blocked : ((table.bucket curIdx).isLocked || (table.bucket curIdx).isExtent) = true) :
    kickChain table.bucketCount (kicks + 1) (memoryOf table largeObjects) curIdx cur =
      (memoryOf table largeObjects, .ok .tableFull) := by
  rw [kickChain, bucket_memoryOf]
  cases locked : (table.bucket curIdx).isLocked with
  | true => rfl
  | false =>
    rw [locked, Bool.false_or] at blocked
    simp only [blocked]
    rfl

/-- One round over an unlocked Inline occupant, given what follows it. -/
theorem follows_round (unlocked : (table.bucket curIdx).isLocked = false)
    (inline_ : (table.bucket curIdx).isExtent = false)
    (stores : writeToBucketInternal cur (memoryOf table largeObjects) curIdx =
      (memoryOf (table.writeSlot curIdx entry) written, .ok ())) (onward : ∀ altIdx, Follows written
      (kickChain table.bucketCount kicks (memoryOf (table.writeSlot curIdx entry) written)
        altIdx (displacedCall (table.bucket curIdx)))
      (kickWalk (table.writeSlot curIdx entry) kicks altIdx (table.bucket curIdx).toEntry)) :
    Follows written
      (kickChain table.bucketCount (kicks + 1) (memoryOf table largeObjects) curIdx cur)
      (kickWalk table (kicks + 1) curIdx entry) := by
  rw [kickChain_round unlocked inline_ stores, kickWalk, unlocked, inline_]
  simp only [Bool.or_self, Bool.false_eq_true, if_false]
  split
  · rfl
  · exact onward _

/-- A chain that carries an Inline entry follows its walk. -/
theorem kickChain_follows (kicks : ℕ) {table : CuckooTable} {curIdx : ℕ} {cur : InsertCall}
    (mode : cur.mode = .inline) :
    Follows written
      (kickChain table.bucketCount kicks (memoryOf table written) curIdx cur)
      (kickWalk table kicks curIdx (InlineEntry cur)) := by
  induction kicks generalizing table curIdx cur with
  | zero => rfl
  | succ kicks ih =>
    cases blocked : (table.bucket curIdx).isLocked || (table.bucket curIdx).isExtent with
    | true =>
      rw [kickChain_blocked blocked, kickWalk, blocked]
      rfl
    | false =>
      obtain ⟨unlocked, inline_⟩ := Bool.or_eq_false_iff.mp blocked
      refine follows_round unlocked inline_ (write_inline mode) fun altIdx => ?_
      have carries : (displacedCall (table.bucket curIdx)).mode = .inline := rfl
      have onward := @ih (table.writeSlot curIdx (InlineEntry cur)) altIdx _ carries
      rwa [inlineEntry_displacedCall inline_] at onward

end Walks

/-- What a chain that fails does to the entries readers see: the first is seen, the second, an Inline
one, no more. An entry of the reserved hash is not seen even when stored. -/
structure Trades (table : CuckooTable) (entry lost : Entry) (after : CuckooTable) : Prop where
  count : after.bucketCount = table.bucketCount
  placed : Placed (visible after)
  lostInline : lost.mode = .inline
  entries : liveEntries (visible after) + {lost} =
    liveEntries (visible table) + held entryOf entry.toBucket

section Trading

variable {table middle after : CuckooTable} {entry occupant lost : Entry} {idx kicks : ℕ}

/-- An entry in hand that was never stored. -/
theorem Trades.refl (placed : Placed (visible table)) (nonzero : entry.key.hash ≠ 0)
    (mode : entry.mode = .inline) : Trades table entry entry table :=
  ⟨rfl, placed, mode, by rw [held_some (entryOf_toBucket nonzero)]⟩

theorem Trades.trans (first : Trades table entry occupant middle) (nonzero : occupant.key.hash ≠ 0)
    (second : Trades middle occupant lost after) : Trades table entry lost after where
  count := second.count.trans first.count
  placed := second.placed
  lostInline := second.lostInline
  entries := by
    rw [second.entries, held_some (entryOf_toBucket nonzero), first.entries]

private theorem mode_toEntry {bucket : HashBucket} (inline_ : bucket.isExtent = false) :
    bucket.toEntry.mode = .inline := by
  simp only [HashBucket.toEntry, HashBucket.mode, inline_]
  rfl

/-- Writing over an unlocked Inline occupant. -/
theorem trades_writeSlot (two : 2 ≤ table.bucketCount) (placed : Placed (visible table))
    (home : IsHome table entry.key idx) (unlocked : (table.bucket idx).isLocked = false)
    (taken : (table.bucket idx).isFree = false) (inline_ : (table.bucket idx).isExtent = false) :
    Trades table entry (table.bucket idx).toEntry (table.writeSlot idx entry) where
  count := rfl
  placed := by
    rw [visible_writeSlot]
    exact placed.writeSlot (home.lt two) home
  lostInline := mode_toEntry inline_
  entries := by
    have bound : idx < (visible table).bucketCount := home.lt two
    have trade := liveEntries_setBucket bound entry.toBucket
    rw [bucket_visible, visibleBucket_of_unlocked unlocked,
      held_some (entryOf_eq_some.mpr ⟨taken, rfl⟩)] at trade
    rw [visible_writeSlot]
    exact trade

theorem hash_toEntry_ne_zero {bucket : HashBucket} (taken : bucket.isFree = false) :
    bucket.toEntry.key.hash ≠ 0 :=
  hash_ne_zero_of_live (entryOf_eq_some.mpr ⟨taken, rfl⟩)

/-- The walk of an Inline entry from a taken slot, when it ends with an entry in hand. -/
theorem kickWalk_trades (kicks : ℕ) {table : CuckooTable} (two : 2 ≤ table.bucketCount)
    (placed : Placed (visible table)) {curIdx : ℕ} {cur : Entry} (home : IsHome table cur.key curIdx)
    (taken : (table.bucket curIdx).isFree = false) (nonzero : cur.key.hash ≠ 0)
    (mode : cur.mode = .inline) (ends : (kickWalk table kicks curIdx cur).2 = .inHand lost) :
    Trades table cur lost (kickWalk table kicks curIdx cur).1 := by
  induction kicks generalizing table curIdx cur with
  | zero =>
    cases ends
    exact .refl placed nonzero mode
  | succ kicks ih =>
    rw [kickWalk] at ends ⊢
    cases blocked : (table.bucket curIdx).isLocked || (table.bucket curIdx).isExtent with
    | true =>
      rw [blocked] at ends
      cases ends
      exact .refl placed nonzero mode
    | false =>
      obtain ⟨unlocked, inline_⟩ := Bool.or_eq_false_iff.mp blocked
      rw [blocked] at ends
      simp only [Bool.false_eq_true, if_false] at ends ⊢
      split at ends
      · cases ends
      · next full =>
          have wrote := trades_writeSlot two placed home unlocked taken inline_
          have real := hash_toEntry_ne_zero taken
          rw [if_neg full]
          have writtenTwo : 2 ≤ (table.writeSlot curIdx cur).bucketCount := two
          have altHome : IsHome (table.writeSlot curIdx cur) (table.bucket curIdx).toEntry.key
              (table.altIdx curIdx (table.bucket curIdx).toEntry) := altIdx_isHome table curIdx _
          exact wrote.trans real (ih writtenTwo wrote.placed altHome (Bool.eq_false_iff.mpr full) real
            wrote.lostInline ends)

end Trading

section Reads

variable {table after : CuckooTable} {entry lost : Entry} {key : HashedKey}
variable {largeObjects written : Option LargeObjectRegion}

private theorem mem_held_toBucket {entry other : Entry} (member : other ∈ held entryOf entry.toBucket) :
    other = entry ∧ entry.key.hash ≠ 0 := by
  rw [held, Multiset.mem_coe, Option.mem_toList] at member
  have nonzero : entry.key.hash ≠ 0 := by
    obtain ⟨occupied, _⟩ := entryOf_eq_some.mp member
    exact hash_toEntry_ne_zero occupied
  rw [entryOf_toBucket nonzero] at member
  exact ⟨(Option.some.inj member).symm, nonzero⟩

private theorem hash_ne_zero_of_mem (member : entry ∈ liveEntries table) : entry.key.hash ≠ 0 := by
  obtain ⟨_, _, live⟩ := mem_liveEntries.mp member
  exact hash_ne_zero_of_live live

private theorem readValue_inline (mode : entry.mode = .inline) :
    Entry.readValue entry largeObjects = some ⟨entry.body.toList, .inline⟩ := by
  simp only [Entry.readValue, LookupResult.readValue, Entry.result, mode]

/-- The mode of what is read is the mode of the entry. -/
theorem mode_of_readValue {result : ReadResult}
    (read : Entry.readValue entry largeObjects = some result) : result.mode = entry.mode := by
  cases mode : entry.mode with
  | inline =>
    rw [readValue_inline mode] at read
    cases read
    rfl
  | extent =>
    simp only [Entry.readValue, LookupResult.readValue, Entry.result, mode] at read
    obtain ⟨data, _, rfl⟩ := Option.map_eq_some_iff.mp read
    rfl

/-- An Inline entry is told from every other entry of its key. -/
theorem readValue_ne (owner : entry.key = lost.key) (mode : lost.mode = .inline) (differs : lost ≠ entry) :
    Entry.readValue entry written ≠ Entry.readValue lost largeObjects := by
  intro same
  rw [readValue_inline mode] at same
  have inline_ := mode_of_readValue same
  rw [readValue_inline inline_.symm, Option.some.injEq, ReadResult.mk.injEq] at same
  apply differs
  rcases entry with ⟨_, body, _⟩
  rcases lost with ⟨_, lostBody, _⟩
  obtain rfl : _ = lostBody := Vector.toList_inj.mp same.1
  cases owner
  cases mode
  cases inline_
  rfl

theorem get_of_seen (valid : WellPlaced (visible table)) (member : entry ∈ liveEntries (visible table))
    (owner : entry.key = key) :
    ClientReader.get key table.buckets largeObjects table.bucketCount =
      .ok (Entry.readValue entry largeObjects) := by
  have two : 2 ≤ table.bucketCount := valid.two
  rw [← get_visible two (owner ▸ hash_ne_zero_of_mem member)]
  exact get_of_live valid (unlocked_visible table) member owner

private theorem get_of_unseen (two : 2 ≤ table.bucketCount) (nonzero : key.hash ≠ 0)
    (absent : ∀ entry ∈ liveEntries (visible table), entry.key ≠ key) :
    ClientReader.get key table.buckets largeObjects table.bucketCount = .ok none := by
  rw [← get_visible two nonzero]
  have shownTwo : 2 ≤ (visible table).bucketCount := two
  exact get_of_absent shownTwo (unlocked_visible table) nonzero absent

theorem Trades.wellPlaced (trades : Trades table entry lost after) (two : 2 ≤ table.bucketCount)
    (distinct : DistinctKeys (visible after)) : WellPlaced (visible after) where
  two := trades.count.symm ▸ two
  placed := trades.placed
  distinct := distinct

/-- The lost entry is one that readers saw before the call, or the call's own. -/
theorem Trades.seen_or_own (trades : Trades table entry lost after) :
    lost ∈ liveEntries (visible table) ∨ lost = entry ∧ entry.key.hash ≠ 0 := by
  have among : lost ∈ liveEntries (visible table) + held entryOf entry.toBucket :=
    trades.entries ▸ Multiset.mem_add.mpr (.inr (Multiset.mem_singleton_self lost))
  exact (Multiset.mem_add.mp among).imp_right mem_held_toBucket

/-- A chain that ends with its own entry in hand has only moved entries between their homes. -/
theorem Trades.get_eq (trades : Trades table entry entry after) (valid : WellPlaced table)
    (key : HashedKey) :
    ClientReader.get key after.buckets largeObjects table.bucketCount =
      ClientReader.get key table.buckets largeObjects table.bucketCount := by
  by_cases zero : key.hash = 0
  · rw [get_of_hash_eq_zero zero, get_of_hash_eq_zero zero]
  have nonzero : entry.key.hash ≠ 0 := trades.seen_or_own.elim hash_ne_zero_of_mem And.right
  have entries := trades.entries
  rw [held_some (entryOf_toBucket nonzero)] at entries
  have same : liveEntries (visible after) = liveEntries (visible table) := add_right_cancel entries
  have before := wellPlaced_visible valid
  have next : WellPlaced (visible after) := trades.wellPlaced valid.two (by
    rw [DistinctKeys, same]
    exact before.distinct)
  have nextTwo : 2 ≤ after.bucketCount := next.two
  rw [← trades.count]
  by_cases stored : ∃ other ∈ liveEntries (visible table), other.key = key
  · obtain ⟨other, member, owner⟩ := stored
    rw [get_of_seen next (same ▸ member) owner, trades.count, get_of_seen before member owner]
  · simp only [not_exists, not_and] at stored
    rw [get_of_unseen nextTwo zero (same ▸ stored), trades.count, get_of_unseen valid.two zero stored]

/-- Otherwise the key that was lost reads differently: not at all, or as the call's entry. -/
theorem Trades.get_ne (trades : Trades table entry lost after) (valid : WellPlaced table)
    (differs : lost ≠ entry) :
    ClientReader.get lost.key after.buckets written table.bucketCount ≠
      ClientReader.get lost.key table.buckets largeObjects table.bucketCount := by
  have before := wellPlaced_visible valid
  have seen := trades.seen_or_own.resolve_right fun own => differs own.1
  have read : Entry.readValue lost largeObjects ≠ none := by
    rw [readValue_inline trades.lostInline]
    exact Option.some_ne_none _
  obtain ⟨rest, split⟩ := Multiset.exists_cons_of_mem seen
  have distinct := before.distinct
  rw [DistinctKeys, split, Multiset.map_cons] at distinct
  have entries : liveEntries (visible after) = rest + held entryOf entry.toBucket := by
    have both := trades.entries
    rw [split, ← Multiset.singleton_add, add_assoc, add_comm] at both
    exact add_left_cancel both
  rw [get_of_seen before seen rfl, ← trades.count]
  by_cases owner : entry.key = lost.key
  · have nonzero : entry.key.hash ≠ 0 := owner ▸ hash_ne_zero_of_mem seen
    rw [held_some (entryOf_toBucket nonzero), add_comm, Multiset.singleton_add] at entries
    have next : WellPlaced (visible after) := trades.wellPlaced valid.two (by
      rwa [DistinctKeys, entries, Multiset.map_cons, owner])
    rw [get_of_seen next (entries ▸ Multiset.mem_cons_self entry rest) owner]
    exact fun same => readValue_ne owner trades.lostInline differs (Except.ok.inj same)
  · have gone : ∀ other ∈ liveEntries (visible after), other.key ≠ lost.key := by
      intro other member same
      rw [entries] at member
      rcases Multiset.mem_add.mp member with kept | own
      · exact (Multiset.nodup_cons.mp distinct).1 (same ▸ Multiset.mem_map_of_mem Entry.key kept)
      · exact owner ((mem_held_toBucket own).1 ▸ same)
    rw [get_of_unseen (trades.count ▸ valid.two) (hash_ne_zero_of_mem seen) gone]
    exact fun same => read (Except.ok.inj same).symm

end Reads

/-- The insertion starts a chain: it passes over both homes, and the first is unlocked and taken by an
Inline entry. -/
structure StartsChain (table : CuckooTable) (call : InsertCall) : Prop where
  unlocked : (table.bucket (table.h1 call.key.hash)).isLocked = false
  taken : (table.bucket (table.h1 call.key.hash)).isFree = false
  inline_ : (table.bucket (table.h1 call.key.hash)).isExtent = false
  passed : (table.bucket (table.h2 call.key.hash)).isLocked = true ∨
    (table.bucket (table.h2 call.key.hash)).isFree = false

/-- The insertion would lose an entry that readers see: it starts a chain, and either has no room for its
extent or, from the first home, walks to an end with another entry than its own in hand. -/
def LosesSeen (table : CuckooTable) (largeObjects : Option LargeObjectRegion) (call : InsertCall) :
    Prop :=
  StartsChain table call ∧
    ∀ stored ∈ slotWrite table largeObjects call (table.h1 call.key.hash),
      ∃ lost ∈ (kickWalk table maxKick (table.h1 call.key.hash) stored.1).2.lost,
        lost ≠ stored.1

section Outcomes

variable {table : CuckooTable} {largeObjects written : Option LargeObjectRegion} {call : InsertCall}
variable {entry : Entry} {idx : ℕ}

theorem free_or_passed (bucket : HashBucket) :
    bucket.isLocked = false ∧ bucket.isFree = true ∨ bucket.isLocked = true ∨ bucket.isFree = false := by
  cases bucket.isLocked <;> cases bucket.isFree <;> decide

/-- Without a chain, an insertion is placed in a free unlocked home or changes nothing at all. -/
theorem insert_of_still (still : ¬ StartsChain table call) :
    (∃ idx placed, IsHome table call.key idx ∧ (table.bucket idx).isLocked = false ∧
      tryInsertAt call (memoryOf table largeObjects) idx = (placed, .ok true) ∧
      ClientWriter.insert call (memoryOf table largeObjects) table.bucketCount =
        (placed, .ok (.inserted idx))) ∨
    ∃ outcome, (∀ idx, outcome ≠ .ok (.inserted idx)) ∧
      ClientWriter.insert call (memoryOf table largeObjects) table.bucketCount =
        (memoryOf table largeObjects, outcome) := by
  rcases free_or_passed (table.bucket (table.h1 call.key.hash)) with ⟨unlocked, free⟩ | firstPassed
  · rcases tryInsertAt_free unlocked free with ⟨placed, direct⟩ | ⟨error, refused⟩
    · exact .inl ⟨_, placed, .inl rfl, unlocked, direct, insert_first direct⟩
    · rw [CuckooTable.h1] at refused
      refine .inr ⟨.error error, by rintro _ ⟨⟩, ?_⟩
      rw [ClientWriter.insert, refused]
  have first : tryInsertAt call (memoryOf table largeObjects) _ = _ :=
    tryInsertAt_passed firstPassed
  rcases free_or_passed (table.bucket (table.h2 call.key.hash)) with ⟨unlocked, free⟩ | secondPassed
  · rcases tryInsertAt_free unlocked free with ⟨placed, direct⟩ | ⟨error, refused⟩
    · exact .inl ⟨_, placed, .inr rfl, unlocked, direct, insert_second first direct⟩
    · rw [CuckooTable.h1] at first
      rw [CuckooTable.h2] at refused
      refine .inr ⟨.error error, by rintro _ ⟨⟩, ?_⟩
      simp only [ClientWriter.insert, first, refused]
  have blocked : ((table.bucket (table.h1 call.key.hash)).isLocked ||
      (table.bucket (table.h1 call.key.hash)).isExtent) = true := by
    by_contra clear
    obtain ⟨unlocked, inline_⟩ := Bool.or_eq_false_iff.mp (Bool.eq_false_iff.mpr clear)
    refine still ⟨unlocked, firstPassed.resolve_left ?_, inline_, secondPassed⟩
    rw [unlocked]
    decide
  exact .inr ⟨.ok .tableFull, by rintro _ ⟨⟩,
    (insert_kick first (tryInsertAt_passed secondPassed)).trans (kickChain_blocked blocked)⟩

private theorem insert_unchanged (still : ¬ StartsChain table call)
    (failed : ∀ idx, (ClientWriter.insert call (memoryOf table largeObjects) table.bucketCount).2 ≠
      .ok (.inserted idx)) :
    (ClientWriter.insert call (memoryOf table largeObjects) table.bucketCount).1 =
      memoryOf table largeObjects := by
  rcases insert_of_still still with ⟨idx, placed, _, _, _, inserted⟩ | ⟨outcome, _, unchanged⟩
  · exact absurd (congrArg Prod.snd inserted) (failed idx)
  · exact congrArg Prod.fst unchanged

namespace StartsChain

variable (starts : StartsChain table call)
include starts

theorem insert_eq :
    ClientWriter.insert call (memoryOf table largeObjects) table.bucketCount =
      kickChain table.bucketCount maxKick (memoryOf table largeObjects)
        (table.h1 call.key.hash) call :=
  insert_kick (tryInsertAt_taken starts.unlocked starts.taken) (tryInsertAt_passed starts.passed)

/-- The first write of the chain, with whatever entry of the call's key. -/
theorem trades_first (valid : WellPlaced table) (owner : entry.key = call.key) :
    Trades table entry (table.bucket (table.h1 call.key.hash)).toEntry
      (table.writeSlot (table.h1 call.key.hash) entry) :=
  trades_writeSlot valid.two (wellPlaced_visible valid).placed (.inl (owner ▸ rfl)) starts.unlocked
    starts.taken starts.inline_

/-- A chain whose first write fails ends there. -/
theorem insert_refused (fails : slotWrite table largeObjects call (table.h1 call.key.hash) = none) :
    ∃ error, ClientWriter.insert call (memoryOf table largeObjects) table.bucketCount =
      (memoryOf (table.writeSlot (table.h1 call.key.hash)
        (refusedEntry table call (table.h1 call.key.hash))) largeObjects, .error error) := by
  obtain ⟨error, refused⟩ := write_of_slotWrite_none fails
  refine ⟨error, ?_⟩
  rw [starts.insert_eq, maxKick, kickChain]
  simp only [bucket_memoryOf, starts.unlocked, starts.inline_, refused, Bool.false_eq_true, if_false]

theorem follows (stored : slotWrite table largeObjects call (table.h1 call.key.hash) = some (entry, written)) :
    Follows written (ClientWriter.insert call (memoryOf table largeObjects) table.bucketCount)
      (kickWalk table maxKick (table.h1 call.key.hash) entry) := by
  rw [starts.insert_eq]
  refine follows_round starts.unlocked starts.inline_ (write_of_slotWrite stored) fun altIdx => ?_
  have carries : (displacedCall (table.bucket (table.h1 call.key.hash))).mode = .inline := rfl
  have onward := @kickChain_follows written 15 (table.writeSlot (table.h1 call.key.hash) entry) altIdx
    _ carries
  rwa [inlineEntry_displacedCall starts.inline_] at onward

theorem trades (valid : WellPlaced table) (owner : entry.key = call.key) {lost : Entry}
    (ends : (kickWalk table maxKick (table.h1 call.key.hash) entry).2 = .inHand lost) :
    Trades table entry lost
      (kickWalk table maxKick (table.h1 call.key.hash) entry).1 := by
  have wrote := starts.trades_first valid owner
  rw [maxKick, kickWalk, starts.unlocked, starts.inline_] at ends ⊢
  simp only [Bool.or_self, Bool.false_eq_true, if_false] at ends ⊢
  split at ends
  · cases ends
  · next full =>
      rw [if_neg full]
      have real := hash_toEntry_ne_zero starts.taken
      have writtenTwo : 2 ≤ (table.writeSlot (table.h1 call.key.hash) entry).bucketCount := valid.two
      exact wrote.trans real (kickWalk_trades 15 writtenTwo wrote.placed
        (altIdx_isHome table (table.h1 call.key.hash) _) (Bool.eq_false_iff.mpr full) real
        wrote.lostInline ends)

end StartsChain

/-- An insertion that fails leaves every local read as it was. -/
def KeepsReads (table : CuckooTable) (largeObjects : Option LargeObjectRegion)
    (insertion : ClientMemory × Except RdmaError WriteResult) : Prop :=
  (∃ error, insertion.2 = .error error) ∨ insertion.2 = .ok .tableFull → ∀ key,
    ClientReader.get key insertion.1.buckets insertion.1.largeObjects table.bucketCount =
      ClientReader.get key table.buckets largeObjects table.bucketCount

theorem failed_iff {outcome : Except RdmaError WriteResult} :
    (∃ error, outcome = .error error) ∨ outcome = .ok .tableFull ↔
      ∀ idx, outcome ≠ .ok (.inserted idx) := by
  rcases outcome with error | idx | _
  · exact iff_of_true (.inl ⟨error, rfl⟩) (by rintro _ ⟨⟩)
  · refine iff_of_false ?_ fun never => never idx rfl
    rintro (⟨_, same⟩ | same) <;> cases same
  · exact iff_of_true (.inr rfl) (by rintro _ ⟨⟩)

private theorem keepsReads_of_still (still : ¬ StartsChain table call) : KeepsReads table largeObjects
    (ClientWriter.insert call (memoryOf table largeObjects) table.bucketCount) := by
  intro failed key
  rw [insert_unchanged still (failed_iff.mp failed)]
  rfl

/-- A refused write has replaced an Inline occupant by an entry that is not Inline. -/
theorem StartsChain.not_keepsReads (starts : StartsChain table call) (valid : WellPlaced table)
    (fails : slotWrite table largeObjects call (table.h1 call.key.hash) = none) :
    ¬ KeepsReads table largeObjects
      (ClientWriter.insert call (memoryOf table largeObjects) table.bucketCount) := by
  intro keeps
  obtain ⟨error, refused⟩ := starts.insert_refused fails
  rw [refused] at keeps
  have owner : (refusedEntry table call (table.h1 call.key.hash)).key = call.key := rfl
  have trades := starts.trades_first valid owner
  refine trades.get_ne valid (fun same => ?_) (keeps (.inl ⟨error, rfl⟩) _)
  cases trades.lostInline.symm.trans (congrArg Entry.mode same)

/-- A walk that finds a free slot is an insertion; one that ends with an entry in hand keeps the reads
exactly if that is the entry of the call. -/
theorem StartsChain.keepsReads_iff (starts : StartsChain table call) (valid : WellPlaced table)
    (stored : slotWrite table largeObjects call (table.h1 call.key.hash) = some (entry, written)) :
    KeepsReads table largeObjects
        (ClientWriter.insert call (memoryOf table largeObjects) table.bucketCount) ↔
      ∀ lost ∈ (kickWalk table maxKick (table.h1 call.key.hash) entry).2.lost,
        lost = entry := by
  rw [KeepsReads, failed_iff, starts.follows stored]
  cases ends : (kickWalk table maxKick (table.h1 call.key.hash) entry).2 with
  | landed idx moved => exact iff_of_true (fun failed => absurd rfl (failed idx)) (by rintro _ ⟨⟩)
  | inHand lost =>
    have trades := starts.trades valid (stores_of_slotWrite stored).key ends
    by_cases back : lost = entry
    · subst back
      obtain rfl := (stores_of_slotWrite stored).region_eq trades.lostInline
      exact iff_of_true (fun _ key => trades.get_eq valid key)
        fun other hand => (Option.some.inj hand).symm
    · refine iff_of_false (fun keeps => ?_) fun own => back (own lost rfl)
      exact trades.get_ne valid back (keeps (by rintro _ ⟨⟩) lost.key)

end Outcomes

/-- A local insertion that returns an error or finds the table full leaves every local read as it was
exactly when it does not lose an entry that readers see. -/
theorem failed_insert_keeps_reads_iff (table : CuckooTable) (valid : WellPlaced table)
    (largeObjects : Option LargeObjectRegion) (call : InsertCall) :
    let insertion := ClientWriter.insert call ⟨table.buckets, largeObjects⟩ table.bucketCount
    ((∃ error, insertion.2 = .error error) ∨ insertion.2 = .ok .tableFull → ∀ key,
      ClientReader.get key insertion.1.buckets insertion.1.largeObjects table.bucketCount =
        ClientReader.get key table.buckets largeObjects table.bucketCount) ↔
      ¬ LosesSeen table largeObjects call := by
  change KeepsReads table largeObjects
    (ClientWriter.insert call (memoryOf table largeObjects) table.bucketCount) ↔ _
  by_cases starts : StartsChain table call
  · cases stored : slotWrite table largeObjects call (table.h1 call.key.hash) with
    | none =>
      refine iff_of_false (starts.not_keepsReads valid stored) fun fine => fine ⟨starts, ?_⟩
      rw [stored]
      rintro _ ⟨⟩
    | some write =>
      rw [starts.keepsReads_iff valid stored, LosesSeen, and_iff_right starts, stored]
      simp
  · exact iff_of_true (keepsReads_of_still starts) fun loses => starts loses.1

/-- Two Inline entries change places before the chain gives up at an Extent entry with its own entry in
hand: nothing readable has changed. -/
theorem failed_insert_swaps_entries :
    let table := runTable (CuckooTable.new 4 16 ⟨2, rfl⟩)
      [.insert ⟨0x200000004, zeros 16⟩ [7] .inline, .insert ⟨0x200000008, zeros 16⟩ [8] .inline,
        .insertExtent ⟨1, zeros 16⟩ 64 8]
    let insertion := ClientWriter.insert ⟨⟨12, zeros 16⟩, [9], .inline⟩ ⟨table.buckets, none⟩ 4
    insertion.2 = .ok .tableFull ∧ insertion.1.buckets ≠ table.buckets ∧
      ∀ key, ClientReader.get key insertion.1.buckets insertion.1.largeObjects 4 =
        ClientReader.get key table.buckets none 4 := by
  intro table insertion
  have valid : WellPlaced table := wellPlaced_runTable (.new 16 ⟨2, rfl⟩ (by decide)) _
  have count : table.bucketCount = 4 := bucketCount_runTable _
  have full : insertion.2 = .ok .tableFull := by decide +kernel
  have moved : insertion.1.buckets ≠ table.buckets := by decide +kernel
  have back : (kickWalk table 16 0 (InlineEntry ⟨⟨12, zeros 16⟩, [9], .inline⟩)).2.lost =
      some (InlineEntry ⟨⟨12, zeros 16⟩, [9], .inline⟩) := by decide +kernel
  have keeps := failed_insert_keeps_reads_iff table valid none ⟨⟨12, zeros 16⟩, [9], .inline⟩
  rw [count] at keeps
  refine ⟨full, moved, keeps.mpr ?_ (.inr full)⟩
  rintro ⟨_, loses⟩
  obtain ⟨lost, hand, differs⟩ := loses _ rfl
  have first : table.h1 12 = 0 := by rw [CuckooTable.h1, count]; rfl
  rw [first] at hand
  exact differs (Option.some.inj (hand.symm.trans back))

/-- Two Inline entries fill two buckets. A third one is turned away after sixteen kicks, and an Extent
one for want of a region; both times the insertion fails and the first key can no longer be read. -/
theorem failed_insert_drops_stored_key :
    let table := runTable (CuckooTable.new 2 16 ⟨1, rfl⟩)
      [.insert ⟨2, zeros 16⟩ [7] .inline, .insert ⟨4, zeros 16⟩ [8] .inline]
    let turnedAway := ClientWriter.insert ⟨⟨6, zeros 16⟩, [9], .inline⟩ ⟨table.buckets, none⟩ 2
    let refused := ClientWriter.insert ⟨⟨6, zeros 16⟩, [9], .extent⟩ ⟨table.buckets, none⟩ 2
    WellPlaced table ∧
      ClientReader.get ⟨2, zeros 16⟩ table.buckets none 2 = .ok (some ⟨padded [7], .inline⟩) ∧
      turnedAway.2 = .ok .tableFull ∧
      ClientReader.get ⟨2, zeros 16⟩ turnedAway.1.buckets turnedAway.1.largeObjects 2 = .ok none ∧
      refused.2 = .error (.internal "Extent mode requires a LargeObjectRegion") ∧
      ClientReader.get ⟨2, zeros 16⟩ refused.1.buckets refused.1.largeObjects 2 = .ok none := by
  intro table turnedAway refused
  refine ⟨wellPlaced_runTable (.new 16 ⟨1, rfl⟩ le_rfl) _, ?_, ?_, ?_, ?_, ?_⟩
  · decide +kernel
  · decide +kernel
  · decide +kernel
  · decide +kernel
  · decide +kernel

end Rdmas.Soundness
