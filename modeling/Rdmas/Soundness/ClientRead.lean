import Rdmas.Model.ClientRead
import Rdmas.Soundness.CuckooRuns

/-! # Local client reads

On a table without locked buckets the local read of a client is determined by the live entries, hence
by `lookup`. Runs of the table never lock a bucket.
-/

namespace Rdmas.Soundness

open Rdmas.Model LittleEndian FixedBytes ClientReader

theorem isInline_eq (bucket : HashBucket) : bucket.isInline = !bucket.isExtent := by
  simp [HashBucket.isInline, HashBucket.isExtent, LockWord.isExtent, bne]

/-- What a local read makes of the bucket that `lookup` found. -/
def LookupResult.readValue (found : LookupResult) (largeObjects : Option LargeObjectRegion) :
    Option ReadResult :=
  match found.mode with
  | .inline => some ⟨found.value, .inline⟩
  | .extent =>
      (largeObjects.bind fun region => region.read found.extentOffset.toNat).map fun data =>
        ⟨data, .extent⟩

/-- No bucket is locked. -/
def Unlocked (table : CuckooTable) : Prop := ∀ idx, (table.bucket idx).isLocked = false

theorem Unlocked.setBucket {table : CuckooTable} (unlocked : Unlocked table) (idx : ℕ)
    {bucket : HashBucket} (free : bucket.isLocked = false) : Unlocked (table.setBucket idx bucket) := by
  intro query
  rcases table.bucket_setBucket_or idx query bucket with same | ⟨_, stored⟩
  · rw [same]
    exact unlocked query
  · rw [stored]
    exact free

theorem isLocked_markTombstone (bucket : HashBucket) : bucket.markTombstone.isLocked = false := by
  rw [HashBucket.isLocked, HashBucket.markTombstone_lockVersion, LockWord.isLocked_pack]
  rfl

section Local

variable {table : CuckooTable} {key : HashedKey} {largeObjects : Option LargeObjectRegion}

/-- A bucket is read exactly when it answers for the key and is not locked. -/
theorem tryReadBucket_eq (unlocked : Unlocked table) (idx : ℕ) :
    tryReadBucket key table.buckets largeObjects idx =
      if table.answers key idx then
        LookupResult.readValue (CuckooTable.readBucketValue (table.bucket idx)) largeObjects
      else none := by
  have slot : table.buckets.getD idx HashBucket.zeroed = table.bucket idx := rfl
  simp only [tryReadBucket, slot, CuckooTable.answers, unlocked idx, isInline_eq]
  by_cases tomb : (table.bucket idx).isTombstone = true
  · simp [tomb]
  by_cases held : (table.bucket idx).matchesKey key.hash key.digest = true
  · by_cases extent : (table.bucket idx).isExtent = true <;>
      simp [tomb, held, extent, LookupResult.readValue, CuckooTable.readBucketValue, HashBucket.mode,
        HashBucket.inlineValue]
  · simp [tomb, held]

/-- With at least two buckets the checks of `get` pass and the two homes are tried in order. -/
theorem get_eq_or (two : 2 ≤ table.bucketCount) (nonzero : key.hash ≠ 0) :
    ClientReader.get key table.buckets largeObjects table.bucketCount =
      .ok ((tryReadBucket key table.buckets largeObjects (table.h1 key.hash)).or
        (tryReadBucket key table.buckets largeObjects (table.h2 key.hash))) := by
  have first : ¬ table.h1 key.hash ≥ table.buckets.length := by
    rw [table.sized]
    exact Nat.not_le.mpr (table.h1_lt _)
  have second : ¬ table.h2 key.hash ≥ table.buckets.length := by
    rw [table.sized]
    exact Nat.not_le.mpr (table.h2_lt two _)
  have power := isPowerOfTwo_eq_true.mpr table.powerOfTwo
  rw [CuckooTable.h1] at first
  rw [CuckooTable.h2] at second
  simp only [ClientReader.get, if_neg nonzero, power, first, second, CuckooTable.h1, CuckooTable.h2]
  cases tryReadBucket key table.buckets largeObjects (key.hash.toNat % table.bucketCount) <;> rfl

/-- The local read is `lookup` followed by the read of its extent. The fallback to the second home
after a failed extent read finds nothing, because a key is live once. -/
theorem get_eq_lookup (valid : WellPlaced table) (unlocked : Unlocked table) (nonzero : key.hash ≠ 0) :
    ClientReader.get key table.buckets largeObjects table.bucketCount =
      .ok ((table.lookup key).bind fun found => LookupResult.readValue found largeObjects) := by
  rw [get_eq_or valid.two nonzero, tryReadBucket_eq unlocked, tryReadBucket_eq unlocked]
  simp only [CuckooTable.lookup, CuckooTable.findKeyIdx, List.find?_cons, List.find?_nil]
  cases first : table.answers key (table.h1 key.hash) with
  | false => cases table.answers key (table.h2 key.hash) <;> rfl
  | true =>
    cases second : table.answers key (table.h2 key.hash) with
    | false =>
      simp only [if_true, Bool.false_eq_true, if_false, Option.or_none, Option.map_some,
        Option.bind_some]
    | true =>
      obtain ⟨_, live, same⟩ := (answers_iff nonzero).mp first
      obtain ⟨_, otherLive, otherSame⟩ := (answers_iff nonzero).mp second
      have once := valid.distinct.position_unique (table.h1_lt _) (table.h2_lt valid.two _) live
        otherLive (same.trans otherSame.symm)
      rw [← once, Option.or_self]
      rfl

end Local

section Runs

variable {table : CuckooTable}

theorem TableOp.unlocked_apply (unlocked : Unlocked table) (op : TableOp) :
    Unlocked (op.apply table).1 := by
  intro idx
  rcases op.bucket_apply idx with same | ⟨entry, stored⟩ | ⟨_, _, _, buried⟩
  · rw [same]
    exact unlocked idx
  · rw [stored]
    exact LockWord.isLocked_modeBits entry.mode
  · rw [buried]
    exact isLocked_markTombstone _

theorem unlocked_runTable (unlocked : Unlocked table) (ops : List TableOp) :
    Unlocked (runTable table ops) := by
  induction ops generalizing table with
  | nil => exact unlocked
  | cons op rest ih => exact ih (op.unlocked_apply unlocked)

theorem bucket_new (bucketCount maxKick : ℕ) (powerOfTwo : bucketCount.isPowerOfTwo)
    (idx : ℕ) : (CuckooTable.new bucketCount maxKick powerOfTwo).bucket idx = HashBucket.zeroed := by
  simp [CuckooTable.bucket, CuckooTable.new]

theorem unlocked_new (bucketCount maxKick : ℕ) (powerOfTwo : bucketCount.isPowerOfTwo) :
    Unlocked (CuckooTable.new bucketCount maxKick powerOfTwo) := by
  intro idx
  rw [bucket_new]
  decide

end Runs

/-- After every run, failing insertions included, the client's local read is what `lookup` finds: the
body of an Inline bucket, or what the region holds at the offset of an Extent bucket. -/
theorem get_agrees_with_lookup {bucketCount : ℕ} (maxKick : ℕ)
    (powerOfTwo : bucketCount.isPowerOfTwo) (two : 2 ≤ bucketCount)
    (ops : List TableOp) (largeObjects : Option LargeObjectRegion) (key : HashedKey)
    (nonzero : key.hash ≠ 0) :
    let table := runTable (CuckooTable.new bucketCount maxKick powerOfTwo) ops
    ClientReader.get key table.buckets largeObjects bucketCount =
      match table.lookup key with
      | none => .ok none
      | some found =>
        match found.mode with
        | .inline => .ok (some ⟨found.value, .inline⟩)
        | .extent =>
          match largeObjects with
          | none => .ok none
          | some region =>
            .ok ((region.read found.extentOffset.toNat).map fun data => ⟨data, .extent⟩) := by
  intro table
  have valid : WellPlaced table := wellPlaced_runTable (.new maxKick powerOfTwo two) ops
  have unlocked : Unlocked table := unlocked_runTable (unlocked_new bucketCount maxKick powerOfTwo) ops
  have count : table.bucketCount = bucketCount := bucketCount_runTable ops
  have read : ClientReader.get key table.buckets largeObjects table.bucketCount = _ :=
    get_eq_lookup valid unlocked nonzero
  rw [count] at read
  rw [read]
  cases table.lookup key with
  | none => rfl
  | some found =>
    simp only [Option.bind_some, LookupResult.readValue]
    cases found.mode with
    | inline => rfl
    | extent => cases largeObjects <;> rfl

/-- An extent is read through the offset its key was inserted with. -/
theorem get_agrees_with_lookup_extent :
    let region := ((LargeObjectRegion.new 64).allocate [1, 2, 3]).1
    let table := runTable (CuckooTable.new 4 2 ⟨2, rfl⟩) [.insertExtent ⟨5, zeros 16⟩ 0 3]
    ClientReader.get ⟨5, zeros 16⟩ table.buckets (some region) 4 =
      .ok (some ⟨[1, 2, 3], .extent⟩) := by
  intro region table
  have found : table.lookup ⟨5, zeros 16⟩ =
      some ⟨padded (encode 8 0 ++ encode 8 3), .extent, 0, 3⟩ := by decide +kernel
  have data : region.read 0 = some [1, 2, 3] := by decide +kernel
  have four : Nat.isPowerOfTwo 4 := ⟨2, rfl⟩
  rw [get_agrees_with_lookup 2 four (by decide) [.insertExtent ⟨5, zeros 16⟩ 0 3] (some region)
    ⟨5, zeros 16⟩ (by decide), found]
  change Except.ok ((region.read 0).map _) = _
  rw [data]
  rfl

end Rdmas.Soundness
