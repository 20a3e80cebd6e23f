import Rdmas.Soundness.ClientFailure
import Rdmas.Soundness.TableBounds

/-! # The reserved hash

A bucket whose hash is zero is empty, and no key may have that hash. The table's own insertions see to it;
its lookups and its deletion compare hash and digest and take an empty bucket for the key whose digest is
all zero, and the client's insertion stores whatever it is given. Both homes of the hash are fixed, so
whether it is treated as no key at all depends on the first two buckets.
-/

namespace Rdmas.Soundness

open Rdmas.Model LittleEndian FixedBytes SlotProgram

/-- No reader finds the key, no deletion touches anything on its account, and every insertion refuses it and
leaves the buckets. Each of the calls returns. -/
structure NeverAKey (table : CuckooTable) (key : HashedKey) : Prop where
  lookup : checked table.buckets (CuckooTable.lookupProgram table.bucketCount key) =
    some (table.buckets, none)
  lookupLockFree : checked table.buckets (CuckooTable.lookupLockFreeProgram table.bucketCount key) =
    some (table.buckets, none)
  getFast : checked table.buckets (CuckooTable.getFastProgram table.bucketCount key) =
    some (table.buckets, none)
  delete : checked table.buckets (CuckooTable.deleteProgram table.bucketCount key) =
    some (table.buckets, false)
  insert : ∀ value mode, checked table.buckets
      (CuckooTable.insertProgram table.bucketCount table.maxKick key value mode) =
    some (table.buckets, .error .invalidKey)
  insertExtent : ∀ offset length, checked table.buckets
      (CuckooTable.insertExtentProgram table.bucketCount table.maxKick key offset length) =
    some (table.buckets, .error .invalidKey)
  insertLockFree : ∀ value mode, checked table.buckets
      (CuckooTable.insertLockFreeProgram table.bucketCount key value mode) =
    some (table.buckets, .error .invalidKey)
  clientInsert : ∀ value mode largeObjects, ∃ after outcome, (∀ idx, outcome ≠ .ok (.inserted idx)) ∧
    checked table.buckets (ClientWriter.insertProgram table.bucketCount ⟨key, value, mode⟩ largeObjects) =
      some (table.buckets, after, outcome)

/-- A bucket that is taken by another key, or locked and no live bucket of hash zero and the digest. -/
def Shut (digest : Vector Byte 16) (bucket : HashBucket) : Prop :=
  bucket.isFree = false ∨
    bucket.isLocked = true ∧ (bucket.matchesKey 0 digest = true → bucket.isTombstone = true)

/-- The two homes of hash zero are there and shut, and the first one starts no kick chain. -/
structure HomesShut (table : CuckooTable) (digest : Vector Byte 16) : Prop where
  two : 2 ≤ table.bucketCount
  first : Shut digest (table.bucket 0)
  second : Shut digest (table.bucket 1)
  still : (table.bucket 0).isLocked = true ∨ (table.bucket 0).isExtent = true

section Homes

variable {table : CuckooTable} {digest : Vector Byte 16}

private theorem shut_iff {bucket : HashBucket} : Shut digest bucket ↔
    HashBucket.bears ⟨0, digest⟩ bucket = false ∧
      (bucket.isLocked = true ∨ bucket.matchesKey 0 digest = false) ∧
      (bucket.isLocked = true ∨ bucket.isFree = false) := by
  simp only [Shut, HashBucket.bears, HashBucket.isFree, HashBucket.isEmpty, HashBucket.matchesKey]
  cases bucket.keyHash == 0 <;> cases bucket.keyOrDigest == digest <;> cases bucket.isTombstone <;>
    cases bucket.isLocked <;> decide

private theorem h1_reserved (table : CuckooTable) : table.h1 0 = 0 := Nat.zero_mod _

private theorem h2_reserved (table : CuckooTable) : table.h2 0 = 1 := by
  have zero : ((0 : BitVec 64) >>> 32).toNat = 0 := by decide
  rw [CuckooTable.h2, zero, Nat.zero_mod]
  rfl

private theorem findKeyIdx_reserved : table.findKeyIdx ⟨0, digest⟩ = none ↔
    HashBucket.bears ⟨0, digest⟩ (table.bucket 0) = false ∧
      HashBucket.bears ⟨0, digest⟩ (table.bucket 1) = false := by
  rw [CuckooTable.findKeyIdx, List.find?_eq_none, h1_reserved, h2_reserved]
  simp only [List.forall_mem_cons, Bool.not_eq_true, CuckooTable.answers, HashBucket.bears]
  simp

private theorem getFast_reserved : table.getFast ⟨0, digest⟩ = none ↔
    ((table.bucket 0).isLocked = true ∨ (table.bucket 0).matchesKey 0 digest = false) ∧
      ((table.bucket 1).isLocked = true ∨ (table.bucket 1).matchesKey 0 digest = false) := by
  have reads : ∀ idx, table.tryReadBucket ⟨0, digest⟩ idx = none ↔
      (table.bucket idx).isLocked = true ∨ (table.bucket idx).matchesKey 0 digest = false := by
    intro idx
    simp only [CuckooTable.tryReadBucket]
    cases (table.bucket idx).isLocked <;> cases (table.bucket idx).matchesKey 0 digest <;>
      cases (table.bucket idx).isInline <;> simp
  rw [CuckooTable.getFast, Option.or_eq_none_iff, reads, reads, h1_reserved, h2_reserved]

theorem lookupLockFree_reserved (two : 2 ≤ table.bucketCount) : table.lookupLockFree ⟨0, digest⟩ = none ↔
    ((table.bucket 0).isLocked = true ∨ (table.bucket 0).matchesKey 0 digest = false) ∧
      ((table.bucket 1).isLocked = true ∨ (table.bucket 1).matchesKey 0 digest = false) := by
  simp only [CuckooTable.lookupLockFree, table.sized, h1_reserved, h2_reserved, Nat.zero_mod,
    Nat.mod_eq_of_lt two]
  cases (table.bucket 0).isLocked <;> cases (table.bucket 0).matchesKey 0 digest <;>
    cases (table.bucket 1).isLocked <;> cases (table.bucket 1).matchesKey 0 digest <;> simp

end Homes

section Chains

variable {table : CuckooTable} {largeObjects : Option LargeObjectRegion} {digest : Vector Byte 16}

/-- A walk leaves a free slot it does not start at, or ends there. -/
theorem kickWalk_keeps_free (kicks : ℕ) {table : CuckooTable} {slot curIdx : ℕ} {cur : Entry}
    (away : curIdx ≠ slot) (free : (table.bucket slot).isFree = true) :
    (∃ idx, (kickWalk table kicks curIdx cur).2.report = .ok (.inserted idx)) ∨
      (kickWalk table kicks curIdx cur).1.bucket slot = table.bucket slot := by
  induction kicks generalizing table curIdx cur with
  | zero => exact .inr rfl
  | succ kicks ih =>
    rw [kickWalk]
    dsimp only
    split
    · exact .inr rfl
    · have kept := table.bucket_writeSlot_ne away cur
      split
      · exact .inl ⟨_, rfl⟩
      next taken =>
        have onward : table.altIdx curIdx (table.bucket curIdx).toEntry ≠ slot := by
          intro same
          rw [same, kept] at taken
          exact taken free
        rw [← kept] at free ⊢
        exact ih onward free

/-- The slot a walk starts at holds the entry it was given, unless another one was put there: as long as
that entry leaves the slot free the walk ends when it comes back. -/
theorem kickWalk_start {kicks start : ℕ} {entry : Entry} (inside : start < table.bucketCount)
    (free : entry.toBucket.isFree = true)
    (clear : ((table.bucket start).isLocked || (table.bucket start).isExtent) = false) :
    (∃ idx, (kickWalk table (kicks + 1) start entry).2.report = .ok (.inserted idx)) ∨
      (kickWalk table (kicks + 1) start entry).1.bucket start = entry.toBucket := by
  have stored := table.bucket_writeSlot_self inside entry
  rw [kickWalk, clear]
  simp only [Bool.false_eq_true, if_false]
  split
  · exact .inl ⟨_, rfl⟩
  next taken =>
    have onward : table.altIdx start (table.bucket start).toEntry ≠ start := by
      intro same
      rw [same, stored] at taken
      exact taken free
    rw [← stored] at free ⊢
    exact kickWalk_keeps_free kicks onward free

/-- A chain that starts with the reserved hash inserts something, or leaves it in the first bucket. -/
theorem chain_reserved (starts : StartsChain table ⟨⟨0, digest⟩, [], .inline⟩)
    (unchanged : (ClientWriter.insert ⟨⟨0, digest⟩, [], .inline⟩ (memoryOf table largeObjects)
      table.bucketCount).1.buckets = table.buckets) :
    ∃ idx, (ClientWriter.insert ⟨⟨0, digest⟩, [], .inline⟩ (memoryOf table largeObjects)
      table.bucketCount).2 = .ok (.inserted idx) := by
  obtain ⟨unlocked, taken, inline_, passed⟩ := starts
  have chain : ClientWriter.insert ⟨⟨0, digest⟩, [], .inline⟩ (memoryOf table largeObjects)
      table.bucketCount = _ :=
    insert_kick (tryInsertAt_passed (.inr taken)) (tryInsertAt_passed passed)
  have follows := @kickChain_follows largeObjects ClientWriter.maxKick table (table.h1 0)
    ⟨⟨0, digest⟩, [], .inline⟩ rfl
  have free : (InlineEntry ⟨⟨0, digest⟩, [], .inline⟩).toBucket.isFree = true := by
    simp only [HashBucket.isFree, HashBucket.isEmpty, toBucket_isTombstone]
    rfl
  have clear : ((table.bucket (table.h1 0)).isLocked || (table.bucket (table.h1 0)).isExtent) = false := by
    rw [unlocked, inline_]
    rfl
  have walked := chain.trans follows
  rw [walked] at unchanged ⊢
  rcases kickWalk_start (table.h1_lt 0) free clear with landed | held
  · exact landed
  · have same : (kickWalk table ClientWriter.maxKick (table.h1 0)
        (InlineEntry ⟨⟨0, digest⟩, [], .inline⟩)).1.buckets = table.buckets := unchanged
    have slot : table.bucket (table.h1 0) = (InlineEntry ⟨⟨0, digest⟩, [], .inline⟩).toBucket := by
      rw [← held, CuckooTable.bucket, ← same]
      rfl
    rw [slot, free] at taken
    cases taken

end Chains

section Clients

variable {table : CuckooTable} {digest : Vector Byte 16}

/-- An Inline call that is not inserted has passed over both homes. -/
theorem passed_of_refused {call : InsertCall} {largeObjects : Option LargeObjectRegion}
    (mode : call.mode = .inline)
    (refused : ∀ idx, (ClientWriter.insert call (memoryOf table largeObjects) table.bucketCount).2 ≠
      .ok (.inserted idx)) :
    ((table.bucket (table.h1 call.key.hash)).isLocked = true ∨
        (table.bucket (table.h1 call.key.hash)).isFree = false) ∧
      ((table.bucket (table.h2 call.key.hash)).isLocked = true ∨
        (table.bucket (table.h2 call.key.hash)).isFree = false) := by
  rcases free_or_passed (table.bucket (table.h1 call.key.hash)) with ⟨unlocked, free⟩ | firstPassed
  · exact absurd (congrArg Prod.snd (insert_first (tryInsertAt_inline mode unlocked free))) (refused _)
  have first : ClientWriter.tryInsertAt call (memoryOf table largeObjects) _ = _ :=
    tryInsertAt_passed firstPassed
  rcases free_or_passed (table.bucket (table.h2 call.key.hash)) with ⟨unlocked, free⟩ | secondPassed
  · exact absurd (congrArg Prod.snd (insert_second first (tryInsertAt_inline mode unlocked free))) (refused _)
  exact ⟨firstPassed, secondPassed⟩

/-- A call that passes over both homes and cannot displace the occupant of the first changes nothing. -/
theorem insert_blocked {largeObjects : Option LargeObjectRegion} {call : InsertCall}
    (firstPassed : (table.bucket (table.h1 call.key.hash)).isLocked = true ∨
      (table.bucket (table.h1 call.key.hash)).isFree = false)
    (secondPassed : (table.bucket (table.h2 call.key.hash)).isLocked = true ∨
      (table.bucket (table.h2 call.key.hash)).isFree = false)
    (blocked : (table.bucket (table.h1 call.key.hash)).isLocked = true ∨
      (table.bucket (table.h1 call.key.hash)).isExtent = true) :
    ClientWriter.insert call (memoryOf table largeObjects) table.bucketCount =
      (memoryOf table largeObjects, .ok .tableFull) :=
  (insert_kick (tryInsertAt_passed firstPassed) (tryInsertAt_passed secondPassed)).trans
    (kickChain_blocked (Bool.or_eq_true_iff.mpr blocked))

/-- The client's insertion refuses the reserved hash and leaves the buckets. -/
def ClientRefuses (table : CuckooTable) (digest : Vector Byte 16) : Prop :=
  ∀ value mode largeObjects,
    (ClientWriter.insert ⟨⟨0, digest⟩, value, mode⟩ (memoryOf table largeObjects)
      table.bucketCount).1.buckets = table.buckets ∧
    ∀ idx, (ClientWriter.insert ⟨⟨0, digest⟩, value, mode⟩ (memoryOf table largeObjects)
      table.bucketCount).2 ≠ .ok (.inserted idx)

private theorem clientRefuses_iff : ClientRefuses table digest ↔
    ((table.bucket 0).isLocked = true ∨ (table.bucket 0).isFree = false) ∧
      ((table.bucket 1).isLocked = true ∨ (table.bucket 1).isFree = false) ∧
      ((table.bucket 0).isLocked = true ∨ (table.bucket 0).isExtent = true) := by
  constructor
  · intro refuses
    obtain ⟨unchanged, refused⟩ := refuses [] .inline none
    obtain ⟨firstPassed, secondPassed⟩ := passed_of_refused rfl refused
    have still : (table.bucket (table.h1 0)).isLocked = true ∨
        (table.bucket (table.h1 0)).isExtent = true := by
      by_contra clear
      rw [not_or, Bool.not_eq_true, Bool.not_eq_true] at clear
      have taken : (table.bucket (table.h1 0)).isFree = false :=
        firstPassed.resolve_left (by dsimp only; rw [clear.1]; decide)
      obtain ⟨idx, inserted⟩ := chain_reserved ⟨clear.1, taken, clear.2, secondPassed⟩ unchanged
      exact refused idx inserted
    dsimp only at firstPassed secondPassed
    rw [h1_reserved] at firstPassed still
    rw [h2_reserved] at secondPassed
    exact ⟨firstPassed, secondPassed, still⟩
  · rintro ⟨firstPassed, secondPassed, blocked⟩ value mode largeObjects
    rw [← h1_reserved table] at firstPassed blocked
    rw [← h2_reserved table] at secondPassed
    have ends := @insert_blocked table largeObjects ⟨⟨0, digest⟩, value, mode⟩ firstPassed secondPassed blocked
    rw [ends]
    exact ⟨rfl, by rintro _ ⟨⟩⟩

end Clients

/-- A table of one bucket stops the lookup of a key that is not in it. -/
theorem two_of_lookup {table : CuckooTable} {key : HashedKey}
    (absent : checked table.buckets (CuckooTable.lookupProgram table.bucketCount key) =
      some (table.buckets, none)) : 2 ≤ table.bucketCount := by
  obtain ⟨inside, result⟩ := (@checked_eq_some_iff _ _ HashBucket.zeroed _ _ _).mp absent
  rw [exec_lookupProgram] at result
  have missing : table.findKeyIdx key = none := Option.map_eq_none_iff.mp (congrArg Prod.snd result)
  have passes : HashBucket.bears key (table.buckets.getD (homeOne table.bucketCount key.hash) .zeroed) = false :=
    Bool.eq_false_iff.mpr (List.find?_eq_none.mp missing _ List.mem_cons_self)
  have second : homeTwo table.bucketCount key.hash ∈
      accesses .zeroed table.buckets (CuckooTable.lookupProgram table.bucketCount key) := by
    rw [CuckooTable.lookupProgram, accesses_andThen, CuckooTable.homes, firstThat, accesses, accesses,
      passes]
    exact List.mem_append_left _ (List.mem_cons_of_mem _ List.mem_cons_self)
  have beyond := inside _ second
  rw [table.sized] at beyond
  have odd : 1 ≤ homeTwo table.bucketCount key.hash := Nat.right_le_or
  omega

/-- From two buckets on every call returns, and what it returns is what the model of the table says. -/
theorem neverAKey_iff {table : CuckooTable} {digest : Vector Byte 16} (two : 2 ≤ table.bucketCount) :
    NeverAKey table ⟨0, digest⟩ ↔ table.findKeyIdx ⟨0, digest⟩ = none ∧
      table.getFast ⟨0, digest⟩ = none ∧ ClientRefuses table digest := by
  have one := homeOne_lt table.powerOfTwo
  have other := homeTwo_lt table.powerOfTwo two
  have returns : ∀ {α : Type} {post : α → Prop} {program : BucketProgram α},
      Within table.bucketCount post program →
        checked table.buckets program = some (exec .zeroed table.buckets program) :=
    fun within => Within.checked_eq .zeroed (table.sized.symm ▸ within)
  have lookup := returns (within_lookupProgram one other ⟨0, digest⟩)
  have lockFree := returns (within_lookupLockFreeProgram one ⟨0, digest⟩)
  have fast := returns (within_getFastProgram one other ⟨0, digest⟩)
  have delete := returns (within_deleteProgram one other ⟨0, digest⟩)
  have client := fun value mode largeObjects => returns (@within_clientInsertProgram table.bucketCount
    ⟨⟨0, digest⟩, value, mode⟩ largeObjects one other)
  rw [exec_lookupProgram] at lookup
  rw [exec_lookupLockFreeProgram] at lockFree
  rw [exec_getFastProgram] at fast
  rw [exec_deleteProgram] at delete
  have inserts := fun value mode largeObjects =>
    exec_clientInsertProgram ⟨⟨0, digest⟩, value, mode⟩ (memoryOf table largeObjects) table.bucketCount
  constructor
  · intro never
    refine ⟨?_, ?_, fun value mode largeObjects => ?_⟩
    · have same := Option.some.inj (lookup.symm.trans never.lookup)
      exact Option.map_eq_none_iff.mp (congrArg Prod.snd same)
    · have same := Option.some.inj (fast.symm.trans never.getFast)
      exact congrArg Prod.snd same
    · obtain ⟨after, outcome, refused, ran⟩ := never.clientInsert value mode largeObjects
      have same := Option.some.inj ((client value mode largeObjects).symm.trans ran)
      have parted := (inserts value mode largeObjects).symm.trans same
      refine ⟨congrArg Prod.fst parted, fun idx inserted => refused idx ?_⟩
      exact (congrArg (fun final => final.2.2) parted).symm.trans inserted
  · rintro ⟨absent, unread, refuses⟩
    have unlocked := (lookupLockFree_reserved two).mpr (getFast_reserved.mp unread)
    refine ⟨?_, ?_, ?_, ?_, fun _ _ => rfl, fun _ _ => rfl, fun _ _ => rfl, fun value mode largeObjects => ?_⟩
    · rw [lookup, CuckooTable.lookup, absent]
      rfl
    · rw [lockFree, unlocked]
    · rw [fast, unread]
    · rw [delete, CuckooTable.delete, absent]
    · obtain ⟨unchanged, refused⟩ := refuses value mode largeObjects
      have ran := (client value mode largeObjects).trans (congrArg some (inserts value mode largeObjects))
      rw [parts, unchanged] at ran
      exact ⟨_, _, refused, ran⟩

/-- Hash zero with a digest is no key to any of the eight calls exactly if both of its homes are there and
shut, and the first one is locked or Extent. -/
theorem reserved_hash_is_never_a_key_iff (table : CuckooTable) (digest : Vector Byte 16) :
    NeverAKey table ⟨0, digest⟩ ↔ HomesShut table digest := by
  by_cases two : 2 ≤ table.bucketCount
  · have shut : HomesShut table digest ↔ table.findKeyIdx ⟨0, digest⟩ = none ∧
        table.getFast ⟨0, digest⟩ = none ∧ ClientRefuses table digest := by
      rw [findKeyIdx_reserved, getFast_reserved, clientRefuses_iff]
      constructor
      · rintro ⟨_, first, second, still⟩
        obtain ⟨noFirst, passFirst, shutFirst⟩ := shut_iff.mp first
        obtain ⟨noSecond, passSecond, shutSecond⟩ := shut_iff.mp second
        exact ⟨⟨noFirst, noSecond⟩, ⟨passFirst, passSecond⟩, shutFirst, shutSecond, still⟩
      · rintro ⟨⟨noFirst, noSecond⟩, ⟨passFirst, passSecond⟩, shutFirst, shutSecond, still⟩
        exact ⟨two, shut_iff.mpr ⟨noFirst, passFirst, shutFirst⟩,
          shut_iff.mpr ⟨noSecond, passSecond, shutSecond⟩, still⟩
    rw [shut, neverAKey_iff two]
  · exact iff_of_false (fun never => two (two_of_lookup never.lookup)) fun shut => two shut.two

/-- Two extents shut both homes. -/
example : HomesShut (((CuckooTable.new 4 16 ⟨2, rfl⟩).insertExtent ⟨4, zeros 16⟩ 0 8).1.insertExtent
    ⟨1, zeros 16⟩ 64 8).1 (zeros 16) :=
  ⟨by decide, .inl (by decide), .inl (by decide), .inr (by decide)⟩

/-- An empty table: the lookup of hash zero with a digest of zeros finds the empty bucket, its deletion makes
a tombstone of it, and the client's insertion stores the key. -/
theorem reserved_hash_is_found_in_empty_table :
    ((CuckooTable.new 4 16 ⟨2, rfl⟩).lookup ⟨0, zeros 16⟩).isSome = true ∧
      ((CuckooTable.new 4 16 ⟨2, rfl⟩).getFast ⟨0, zeros 16⟩).isSome = true ∧
      ((CuckooTable.new 4 16 ⟨2, rfl⟩).delete ⟨0, zeros 16⟩).2 = true ∧
      (((CuckooTable.new 4 16 ⟨2, rfl⟩).delete ⟨0, zeros 16⟩).1.bucket 0).isTombstone = true ∧
      (ClientWriter.insert ⟨⟨0, zeros 16⟩, [7], .inline⟩
        (memoryOf (CuckooTable.new 4 16 ⟨2, rfl⟩) none) 4).2 = .ok (.inserted 0) := by
  decide

end Rdmas.Soundness
