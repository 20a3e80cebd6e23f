import Rdmas.Soundness.CuckooRuns

/-! # Insertions that find the table full

A kick chain that runs out of kicks has already rewritten every slot it visited. It visits live slots
only and leaves them live, so empty buckets and tombstones keep their bytes; but the entry left in hand
is gone. The lookups survive exactly when that entry is the new one, back in hand where it started.
-/

namespace Rdmas.Soundness

open Rdmas.Model FixedBytes

section Chain

variable {table : CuckooTable}

/-- A chain that runs out of kicks turns no live slot into a free one and touches no free slot. -/
theorem kickChain_keeps_free (kicks : ℕ) {table : CuckooTable} (two : 2 ≤ table.bucketCount)
    {curIdx : ℕ} {cur lost : Entry} (home : IsHome table cur.key curIdx)
    (occupied : (table.bucket curIdx).isFree = false) (nonzero : cur.key.hash ≠ 0)
    (exhausted : leftInHand table kicks curIdx cur = some lost) (idx : ℕ) :
    (table.kickChain kicks curIdx cur).1.bucket idx = table.bucket idx ∨
      (table.bucket idx).isFree = false ∧
        ((table.kickChain kicks curIdx cur).1.bucket idx).isFree = false := by
  induction kicks generalizing table curIdx cur with
  | zero => exact .inl rfl
  | succ kicks ih =>
    have live := entryOf_eq_some.mpr ⟨occupied, rfl⟩
    have writtenFull : (cur.toBucket).isFree = false :=
      (entryOf_eq_some.mp (entryOf_toBucket nonzero)).1
    have rewritten : (table.writeSlot curIdx cur).bucket idx = table.bucket idx ∨
        (table.bucket idx).isFree = false ∧
          ((table.writeSlot curIdx cur).bucket idx).isFree = false := by
      rw [CuckooTable.writeSlot, table.bucket_setBucket (home.lt two)]
      split
      · next same => exact .inr ⟨same ▸ occupied, writtenFull⟩
      · exact .inl rfl
    simp only [leftInHand] at exhausted
    simp only [CuckooTable.kickChain]
    split at exhausted
    · cases exhausted
    · next full =>
        rw [if_neg full]
        have writtenTwo : 2 ≤ (table.writeSlot curIdx cur).bucketCount := two
        have altHome : IsHome (table.writeSlot curIdx cur) (table.bucket curIdx).toEntry.key
            (table.altIdx curIdx (table.bucket curIdx).toEntry) := altIdx_isHome table curIdx _
        rcases ih writtenTwo altHome (by simpa using full) (hash_ne_zero_of_live live) exhausted with
          same | ⟨before, after⟩
        · rwa [same]
        · refine .inr ⟨?_, after⟩
          rcases rewritten with same | ⟨occupiedBefore, _⟩
          · rwa [← same]
          · exact occupiedBefore

/-- The reserved hash is answered for by free buckets only. -/
theorem isFree_of_answers {key : HashedKey} {idx : ℕ} (zero : key.hash = 0)
    (answer : table.answers key idx = true) : (table.bucket idx).isFree = true := by
  obtain ⟨same, _⟩ := answers_eq_true.mp answer
  have stored : (table.bucket idx).keyHash = 0 := (congrArg HashedKey.hash same).trans zero
  simp [HashBucket.isFree, HashBucket.isEmpty, stored]

/-- Tables whose buckets differ in live slots only agree about the reserved hash. -/
theorem lookup_congr_of_hash_eq_zero {other : CuckooTable} {key : HashedKey} (zero : key.hash = 0)
    (count : other.bucketCount = table.bucketCount) (keeps : ∀ idx, other.bucket idx = table.bucket idx ∨
      (table.bucket idx).isFree = false ∧ (other.bucket idx).isFree = false) :
    other.lookup key = table.lookup key := by
  have agree : ∀ idx, other.answers key idx = table.answers key idx := by
    intro idx
    rcases keeps idx with same | ⟨before, after⟩
    · simp only [CuckooTable.answers, same]
    · have silent : ∀ {some : CuckooTable}, (some.bucket idx).isFree = false →
          some.answers key idx = false := by
        intro some occupied
        rw [Bool.eq_false_iff]
        intro answer
        rw [isFree_of_answers zero answer] at occupied
        contradiction
      rw [silent before, silent after]
  have scan : other.findKeyIdx key = table.findKeyIdx key := by
    simp only [CuckooTable.findKeyIdx, CuckooTable.h1, CuckooTable.h2, count, funext agree]
  rw [CuckooTable.lookup, CuckooTable.lookup, scan]
  refine Option.map_congr fun idx found => ?_
  rcases keeps idx with same | ⟨before, _⟩
  · rw [same]
  · rw [isFree_of_answers zero (List.find?_some found)] at before
    contradiction

/-- An insertion that finds the table full is a kick chain that ran out of kicks. -/
theorem insertRaw_of_tableFull {entry : Entry} (full : (table.insertRaw entry).2 = .error .tableFull) :
    (table.bucket (table.h1 entry.key.hash)).isFree = false ∧
    (table.bucket (table.h2 entry.key.hash)).isFree = false ∧
    table.insertRaw entry = table.kickChain table.maxKick (table.h1 entry.key.hash) entry ∧
    displaced table entry = leftInHand table table.maxKick (table.h1 entry.key.hash) entry := by
  cases found : [table.h1 entry.key.hash, table.h2 entry.key.hash].find? (table.answers entry.key) with
  | some idx =>
    simp only [CuckooTable.insertRaw, found] at full
    cases full
  | none =>
    cases taken : [table.h1 entry.key.hash, table.h2 entry.key.hash].find? fun idx =>
        (table.bucket idx).isFree with
    | some idx =>
      simp only [CuckooTable.insertRaw, found, taken] at full
      cases full
    | none =>
      have occupied := List.find?_eq_none.mp taken
      refine ⟨by simpa using occupied _ List.mem_cons_self,
        by simpa using occupied _ (List.mem_cons_of_mem _ List.mem_cons_self), ?_, ?_⟩
      · simp only [CuckooTable.insertRaw, found, taken]
      · simp only [displaced, found, taken]

end Chain

/-- The insertion would lose an entry other than its own: the key is real and not in its homes, both
are taken, and the walk of displaced entries from the first home, as many as there are kicks, meets no
free slot and ends with another entry in hand. -/
def LosesAnother (table : CuckooTable) (entry : Entry) : Prop :=
  entry.key.hash ≠ 0 ∧ table.findKeyIdx entry.key = none ∧
    ∃ lost, displaced table entry = some lost ∧ lost ≠ entry

section Atomicity

variable {table : CuckooTable}

/-- Entries determine the lookups of real keys. -/
theorem lookup_congr_of_liveEntries {other : CuckooTable} (valid : WellPlaced table)
    (otherValid : WellPlaced other) (same : liveEntries other = liveEntries table) {key : HashedKey}
    (nonzero : key.hash ≠ 0) : other.lookup key = table.lookup key := by
  apply Option.ext
  intro result
  rw [lookup_eq_some_iff otherValid nonzero, lookup_eq_some_iff valid nonzero, same]

/-- A core insertion that fails leaves every lookup alone exactly when it loses no other entry. -/
theorem lookup_insertRaw_of_tableFull (valid : WellPlaced table) {entry : Entry}
    (nonzero : entry.key.hash ≠ 0) (full : (table.insertRaw entry).2 = .error .tableFull) :
    (∀ key, (table.insertRaw entry).1.lookup key = table.lookup key) ↔ ¬ LosesAnother table entry := by
  obtain ⟨occupied, _, chain, hand⟩ := insertRaw_of_tableFull full
  obtain ⟨next, trade, ⟨success, _⟩ | ⟨_, absent, lost, lostEq⟩⟩ := insertRaw_spec valid nonzero
  · rw [success] at full
    cases full
  rw [lostEq, Option.toList_some, Multiset.coe_singleton] at trade
  constructor
  · rintro unchanged ⟨_, _, other, otherEq, differs⟩
    obtain rfl := Option.some.inj (lostEq.symm.trans otherEq)
    -- The rejected entry is live afterwards, and its key was not before.
    have among : entry ∈ liveEntries (table.insertRaw entry).1 + {lost} :=
      trade ▸ Multiset.mem_add.mpr (.inr (Multiset.mem_singleton_self entry))
    have stays : entry ∈ liveEntries (table.insertRaw entry).1 :=
      (Multiset.mem_add.mp among).resolve_right fun same =>
        differs (Multiset.mem_singleton.mp same).symm
    have found := (lookup_eq_some_iff next nonzero).mpr ⟨entry, stays, rfl, rfl⟩
    rw [unchanged, (lookup_eq_none_iff valid nonzero).mpr absent] at found
    cases found
  · intro keeps key
    have missing := findKeyIdx_of_absent valid.two nonzero absent
    have back : lost = entry := by
      by_contra differs
      exact keeps ⟨nonzero, missing, lost, lostEq, differs⟩
    subst lost
    have same : liveEntries (table.insertRaw entry).1 = liveEntries table := add_right_cancel trade
    by_cases zero : key.hash = 0
    · refine lookup_congr_of_hash_eq_zero zero ?_ ?_
      · rw [chain]
        exact kickChain_bucketCount _ _ _
      · intro idx
        rw [chain]
        exact kickChain_keeps_free table.maxKick valid.two (.inl rfl) occupied nonzero
          (hand ▸ lostEq) idx
    · exact lookup_congr_of_liveEntries valid next same zero

/-- With a single bucket the second index misses the array, so no insertion finds the table full. -/
theorem isFree_second_of_one_bucket (one : table.bucketCount < 2) (hash : BitVec 64) :
    (table.bucket (table.h2 hash)).isFree = true := by
  have beyond : table.buckets.length ≤ table.h2 hash := by
    have low : 1 ≤ table.h2 hash := by
      rw [CuckooTable.h2]
      exact Nat.right_le_or
    rw [table.sized]
    omega
  rw [CuckooTable.bucket, List.getD_eq_default _ _ beyond]
  decide

/-- A walk that ends with an entry in hand is a failed insertion. -/
theorem tableFull_of_losesAnother (valid : WellPlaced table) {entry : Entry}
    (loses : LosesAnother table entry) : (table.insertRaw entry).2 = .error .tableFull := by
  obtain ⟨nonzero, missing, lost, lostEq, _⟩ := loses
  rw [insertRaw_outcome valid.two valid.placed nonzero missing, lostEq]
  rfl

private theorem not_losesAnother_of_one_bucket (one : table.bucketCount < 2) (entry : Entry) :
    ¬ LosesAnother table entry := by
  rintro ⟨_, missing, lost, lostEq, _⟩
  simp only [CuckooTable.findKeyIdx] at missing
  simp only [displaced, missing] at lostEq
  split at lostEq
  · cases lostEq
  · next taken =>
      have occupied := List.find?_eq_none.mp taken _ (List.mem_cons_of_mem _ List.mem_cons_self)
      exact occupied (isFree_second_of_one_bucket one entry.key.hash)

end Atomicity

/-- In every reachable table, an insertion that finds the table full leaves every lookup as it was
exactly when it does not lose another entry. -/
theorem tableFull_keeps_lookups_iff {bucketCount : ℕ} (maxKick : ℕ)
    (powerOfTwo : bucketCount.isPowerOfTwo) (ops : List TableOp) (op : TableOp)
    (entry : Entry) (stores : op.storedEntry = some entry) :
    let table := runTable (CuckooTable.new bucketCount maxKick powerOfTwo) ops
    ((op.apply table).2 = .inserted (.error .tableFull) →
      ∀ key, (op.apply table).1.lookup key = table.lookup key) ↔ ¬ LosesAnother table entry := by
  intro table
  rw [TableOp.apply_of_storedEntry stores]
  by_cases zero : entry.key.hash = 0
  · rw [if_pos zero]
    exact iff_of_true (fun refused => nomatch refused) fun loses => loses.1 zero
  rw [if_neg zero]
  by_cases two : 2 ≤ bucketCount
  · have valid : WellPlaced table := wellPlaced_runTable (.new maxKick powerOfTwo two) ops
    constructor
    · intro keeps loses
      have full := tableFull_of_losesAnother valid loses
      exact (lookup_insertRaw_of_tableFull valid zero full).mp
        (keeps (congrArg TableOutcome.inserted full)) loses
    · intro keeps full
      exact (lookup_insertRaw_of_tableFull valid zero (TableOutcome.inserted.inj full)).mpr keeps
  · have one : table.bucketCount < 2 := by
      have count : table.bucketCount = bucketCount := bucketCount_runTable ops
      omega
    refine iff_of_true (fun full => ?_) (not_losesAnother_of_one_bucket one entry)
    have taken := (insertRaw_of_tableFull (TableOutcome.inserted.inj full)).2.1
    rw [isFree_second_of_one_bucket one] at taken
    cases taken

/-- With four kicks the chain of the third key comes back to its start: the insertion fails and
every lookup is as before. -/
theorem tableFull_keeps_lookups_cycle :
    let table := runTable (CuckooTable.new 2 4 ⟨1, rfl⟩)
      [.insert ⟨2, zeros 16⟩ [7] .inline, .insertExtent ⟨1, zeros 16⟩ 64 8]
    let op : TableOp := .insert ⟨4, zeros 16⟩ [9] .inline
    (op.apply table).2 = .inserted (.error .tableFull) ∧
      ∀ key, (op.apply table).1.lookup key = table.lookup key := by
  intro table op
  have full : (op.apply table).2 = .inserted (.error .tableFull) := by decide +kernel
  have back : displaced table ⟨⟨4, zeros 16⟩, CuckooTable.packBody [9] .inline, .inline⟩ =
      some ⟨⟨4, zeros 16⟩, CuckooTable.packBody [9] .inline, .inline⟩ := by decide +kernel
  refine ⟨full, (tableFull_keeps_lookups_iff 4 ⟨1, rfl⟩ _ op _ rfl).mpr ?_ full⟩
  rintro ⟨_, _, lost, lostEq, differs⟩
  exact differs (Option.some.inj (lostEq.symm.trans back))

/-- With the default sixteen kicks two keys fill two buckets; a third is rejected, but it is found
afterwards and the first key is not. -/
theorem tableFull_drops_stored_key :
    let table := runTable (CuckooTable.new 2 16 ⟨1, rfl⟩)
      [.insert ⟨2, zeros 16⟩ [7] .inline, .insert ⟨4, zeros 16⟩ [8] .inline]
    let op : TableOp := .insert ⟨6, zeros 16⟩ [9] .inline
    (op.apply table).2 = .inserted (.error .tableFull) ∧
      table.lookup ⟨2, zeros 16⟩ = some ⟨padded [7], .inline, 0, 0⟩ ∧
      (op.apply table).1.lookup ⟨2, zeros 16⟩ = none ∧
      (op.apply table).1.lookup ⟨6, zeros 16⟩ = some ⟨padded [9], .inline, 0, 0⟩ := by
  decide +kernel

end Rdmas.Soundness
