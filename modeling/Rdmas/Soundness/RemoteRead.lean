import Rdmas.Soundness.ClientRead

/-! # Remote client reads

The remote read looks at the first home that bears the key's bytes, deleted or not, and takes an
extent's bytes from the address of its header. It is compared with the local read bucket by bucket;
that a table never holds a key live behind its own tombstone is an invariant of runs.
-/

namespace Rdmas.Soundness

open Rdmas.Model LittleEndian ByteMemory FixedBytes ClientReader

section Remote

/-- A transport that serves a bucket array and the bytes of an extent region. What it does with a
read that leaves the region does not matter. -/
structure Serves (transport : Transport) (regions : RemoteRegions) (buckets : List HashBucket)
    (memory : Memory) (size : ℕ) : Prop where
  bucket : ∀ idx (bound : idx < buckets.length),
    transport.read 64 regions.lkey (regions.hashTableVaddr + BitVec.ofNat 64 (idx * 64))
      regions.hashTableRkey = .ok (buckets[idx]).toBytes
  inside : ∀ (offset : BitVec 64) (length : ℕ), offset.toNat + length ≤ size →
    (transport.read length regions.lkey (regions.largeObjVaddr + offset) regions.largeObjRkey).map
      Vector.toList = .ok (ByteMemory.read memory offset.toNat length)

/-- The transport of a server with two registrations, told apart by their keys. -/
def serving (regions : RemoteRegions) (buckets : List HashBucket) (memory : Memory) (size : ℕ) :
    Transport where
  read length _ remoteAddr remoteRkey :=
    let refused : RdmaError := .hardwareError "remote access error"
    if remoteRkey = regions.hashTableRkey then
      let start := (remoteAddr - regions.hashTableVaddr).toNat
      if start + length ≤ 64 * buckets.length then
        .ok (Vector.ofFn fun index =>
          (buckets.getD ((start + index) / 64) HashBucket.zeroed).toBytes.toList.getD
            ((start + index) % 64) 0)
      else .error refused
    else
      let start := (remoteAddr - regions.largeObjVaddr).toNat
      if start + length ≤ size then .ok (Vector.ofFn fun index => memory (start + index))
      else .error refused

theorem serves_serving {regions : RemoteRegions} (distinct : regions.largeObjRkey ≠ regions.hashTableRkey)
    {buckets : List HashBucket} (fits : 64 * buckets.length ≤ 2 ^ 64) (memory : Memory) (size : ℕ) :
    Serves (serving regions buckets memory size) regions buckets memory size where
  bucket idx bound := by
    have start : (regions.hashTableVaddr + BitVec.ofNat 64 (idx * 64) -
        regions.hashTableVaddr).toNat = idx * 64 := by
      rw [BitVec.add_comm, BitVec.add_sub_cancel, BitVec.toNat_ofNat, Nat.mod_eq_of_lt (by omega)]
    simp only [serving, if_true, start]
    rw [if_pos (by omega)]
    refine congrArg Except.ok (Vector.ext fun index inside => ?_)
    have slot : (idx * 64 + index) / 64 = idx := by omega
    have skip : (idx * 64 + index) % 64 = index := by omega
    simp only [Vector.getElem_ofFn, slot, skip, List.getD_eq_getElem _ _ bound]
    rw [List.getD_eq_getElem _ _ (by simpa using inside), Vector.getElem_toList]
  inside offset length bound := by
    have start : regions.largeObjVaddr + offset - regions.largeObjVaddr = offset := by
      rw [BitVec.add_comm, BitVec.add_sub_cancel]
    simp only [serving, if_neg distinct, start, if_pos bound]
    refine congrArg Except.ok (List.ext_getElem (by simp) fun index left _ => ?_)
    simp [ByteMemory.read]

/-- The first home of a key that bears its bytes, deleted or not. -/
def firstMatch (table : CuckooTable) (key : HashedKey) : Option ℕ :=
  [table.h1 key.hash, table.h2 key.hash].find? fun idx =>
    (table.bucket idx).matchesKey key.hash key.digest

variable {table : CuckooTable} {key : HashedKey} {transport : Transport} {regions : RemoteRegions}
variable {memory : Memory} {size : ℕ}

theorem probeRemote_served (serves : Serves transport regions table.buckets memory size) {idx : ℕ}
    (bound : idx < table.bucketCount) : probeRemote key transport regions idx =
      if !(table.bucket idx).isLocked && (table.bucket idx).matchesKey key.hash key.digest then
        some <$> extractValue (table.bucket idx) transport regions
      else .ok none := by
  rw [← table.sized] at bound
  have slot := table.bucket_eq_getElem bound
  simp only [probeRemote, serves.bucket idx bound, ← slot, bind, Except.bind, HashBucket.fromBytes_toBytes]
  rfl

private theorem probeRemote_eq (serves : Serves transport regions table.buckets memory size)
    (unlocked : Unlocked table) {idx : ℕ} (bound : idx < table.bucketCount) :
    probeRemote key transport regions idx =
      if (table.bucket idx).matchesKey key.hash key.digest then
        some <$> extractValue (table.bucket idx) transport regions
      else .ok none := by
  rw [probeRemote_served serves bound, unlocked idx, Bool.not_false, Bool.true_and]

/-- The remote read takes the value of the first home that bears the key. -/
theorem getRemote_eq (serves : Serves transport regions table.buckets memory size)
    (unlocked : Unlocked table) (two : 2 ≤ table.bucketCount) (nonzero : key.hash ≠ 0) :
    getRemote key transport regions table.bucketCount =
      match firstMatch table key with
      | none => .ok none
      | some idx => some <$> extractValue (table.bucket idx) transport regions := by
  have power := isPowerOfTwo_eq_true.mpr table.powerOfTwo
  have first : probeRemote key transport regions (table.h1 key.hash) = _ :=
    probeRemote_eq serves unlocked (table.h1_lt _)
  have second : probeRemote key transport regions (table.h2 key.hash) = _ :=
    probeRemote_eq serves unlocked (table.h2_lt two _)
  have unfolded : getRemote key transport regions table.bucketCount =
      (probeRemote key transport regions (table.h1 key.hash)).bind fun probed =>
        probed.elim (probeRemote key transport regions (table.h2 key.hash)) fun result =>
          pure (some result) := by
    simp only [getRemote, if_neg nonzero, power, Bool.not_true, Bool.false_eq_true, if_false]
    refine congrArg (Except.bind (probeRemote key transport regions (table.h1 key.hash))) ?_
    funext probed
    cases probed <;> rfl
  rw [unfolded, first, second, firstMatch, List.find?_cons, List.find?_cons, List.find?_nil]
  cases (table.bucket (table.h1 key.hash)).matchesKey key.hash key.digest with
  | true =>
    simp only [if_true]
    generalize extractValue (table.bucket (table.h1 key.hash)) transport regions = value
    cases value <;> rfl
  | false => cases (table.bucket (table.h2 key.hash)).matchesKey key.hash key.digest <;> rfl

/-- An Extent value that fits the region is the bytes from the header on. -/
theorem extractValue_eq_ok (serves : Serves transport regions table.buckets memory size)
    {bucket : HashBucket} (extent : bucket.isExtent = true) {data : Bytes}
    (fits : bucket.extentRef.1.toNat + data.length ≤ size) :
    extractValue bucket transport regions = .ok ⟨data, .extent⟩ ↔
      data = ByteMemory.read memory bucket.extentRef.1.toNat bucket.extentRef.2.toNat := by
  have bytes := serves.inside bucket.extentRef.1 bucket.extentRef.2.toNat
  simp only [extractValue, isInline_eq, extent, Bool.not_true, Bool.false_eq_true, if_false]
  generalize transport.read _ _ _ _ = outcome at bytes ⊢
  constructor
  · intro success
    cases outcome with
    | error error => cases success
    | ok buf =>
      have value : buf.toList = data := congrArg ReadResult.value (Except.ok.inj success)
      have length : bucket.extentRef.2.toNat = data.length := by rw [← value, Vector.length_toList]
      rw [← value]
      exact Except.ok.inj (bytes (length ▸ fits))
  · intro same
    have length : data.length = bucket.extentRef.2.toNat := by rw [same, read_length]
    have served := bytes (length ▸ fits)
    cases outcome with
    | error error => cases served
    | ok buf =>
      have value : buf.toList = _ := Except.ok.inj served
      simp only [Except.map, value, same]

/-- What a region returns lies inside it. -/
theorem read_fits {region : LargeObjectRegion} {offset : ℕ} {data : Bytes}
    (success : region.read offset = some data) : offset + data.length ≤ region.size := by
  simp only [LargeObjectRegion.read, Option.bind_eq_bind, Option.bind_eq_some_iff] at success
  obtain ⟨decoded, _, rest⟩ := success
  split at rest
  · cases rest
  · split at rest
    · cases rest
    · next inside =>
        have length := congrArg List.length (Option.some.inj rest)
        rw [read_length] at length
        omega

/-- The remote read of an Extent bucket equals the local one exactly when the region reads at the
offset as its own bytes from there. -/
theorem extractValue_eq_region_iff {region : LargeObjectRegion}
    (serves : Serves transport regions table.buckets region.buffer region.size)
    {bucket : HashBucket} (extent : bucket.isExtent = true) :
    some <$> extractValue bucket transport regions =
        .ok ((region.read bucket.extentRef.1.toNat).map fun data => ⟨data, .extent⟩) ↔
      region.read bucket.extentRef.1.toNat =
        some (ByteMemory.read region.buffer bucket.extentRef.1.toNat bucket.extentRef.2.toNat) := by
  cases local_ : region.read bucket.extentRef.1.toNat with
  | none => cases extractValue bucket transport regions <;> simp [Functor.map, Except.map]
  | some data =>
    rw [Option.some_inj, ← extractValue_eq_ok serves extent (read_fits local_)]
    cases extractValue bucket transport regions <;> simp [Functor.map, Except.map]

end Remote

section Tombstones

variable {table : CuckooTable}

/-- A key whose first home is its own tombstone is not live. -/
def NeverBehindTombstone (table : CuckooTable) : Prop :=
  ∀ key : HashedKey, key.hash ≠ 0 → (table.bucket (table.h1 key.hash)).isTombstone = true →
    (table.bucket (table.h1 key.hash)).matchesKey key.hash key.digest = true →
    ∀ entry ∈ liveEntries table, entry.key ≠ key

theorem matchesKey_iff {bucket : HashBucket} {key : HashedKey} :
    bucket.matchesKey key.hash key.digest = true ↔ bucket.toEntry.key = key := by
  rcases key with ⟨hash, digest⟩
  simp [HashBucket.matchesKey, HashBucket.toEntry]

theorem TableOp.neverBehindTombstone_apply (valid : WellPlaced table)
    (never : NeverBehindTombstone table) (op : TableOp) :
    NeverBehindTombstone (op.apply table).1 := by
  rintro key nonzero tomb held entry member rfl
  have index : (op.apply table).1.h1 entry.key.hash = table.h1 entry.key.hash := by
    simp only [CuckooTable.h1, op.bucketCount_apply]
  rw [index] at tomb held
  rcases op.bucket_apply (table.h1 entry.key.hash) with
    unchanged | ⟨stored, eq⟩ | ⟨deleted, rfl, found, eq⟩
  · have before := tomb
    rw [unchanged] at before held
    have absent := never entry.key nonzero before held
    rcases op.mem_liveEntries_apply valid.two valid.placed member with live | stores
    · exact absent entry live rfl
    · -- The key itself is inserted: it takes its first home, which is no tombstone afterwards.
      have missing := findKeyIdx_of_absent valid.two nonzero absent
      have free : (table.bucket (table.h1 entry.key.hash)).isFree = true := by
        simp [HashBucket.isFree, before]
      rw [apply_of_storedEntry stores, if_neg nonzero, insertRaw_first missing free,
        table.bucket_writeSlot_self (table.h1_lt _), toBucket_isTombstone] at tomb
      contradiction
  · rw [eq, toBucket_isTombstone] at tomb
    contradiction
  · have same : entry.key = deleted := by
      rw [eq] at held
      exact (matchesKey_iff.mp held).symm.trans (answers_eq_true.mp (List.find?_some found)).1
    change entry ∈ liveEntries (table.delete deleted).1 at member
    rw [liveEntries_delete valid] at member
    exact (Multiset.mem_filter.mp member).2 same

theorem neverBehindTombstone_runTable (valid : WellPlaced table)
    (never : NeverBehindTombstone table) (ops : List TableOp) :
    NeverBehindTombstone (runTable table ops) := by
  induction ops generalizing table with
  | nil => exact never
  | cons op rest ih =>
    exact ih (op.wellPlaced_apply valid) (op.neverBehindTombstone_apply valid never)

theorem neverBehindTombstone_new (bucketCount maxKick : ℕ) (powerOfTwo : bucketCount.isPowerOfTwo) :
    NeverBehindTombstone (CuckooTable.new bucketCount maxKick powerOfTwo) := by
  intro key _ tomb
  rw [bucket_new] at tomb
  exact absurd tomb (by decide)

/-- The first element with a property is also the first with a stronger one, if it has that too. -/
theorem find?_of_stronger {α : Type*} {weak strong : α → Bool} {list : List α} {chosen : α}
    (first : list.find? weak = some chosen) (implied : ∀ x, strong x = true → weak x = true)
    (holds : strong chosen = true) : list.find? strong = some chosen := by
  obtain ⟨_, before, behind, split, passed⟩ := List.find?_eq_some_iff_append.mp first
  refine List.find?_eq_some_iff_append.mpr ⟨holds, before, behind, split, fun x member => ?_⟩
  have weakFails := passed x member
  rw [Bool.not_eq_true'] at weakFails ⊢
  rw [Bool.eq_false_iff] at weakFails ⊢
  exact fun strongHolds => weakFails (implied x strongHolds)

theorem matchesKey_of_firstMatch {key : HashedKey} {idx : ℕ} (first : firstMatch table key = some idx) :
    (table.bucket idx).matchesKey key.hash key.digest = true := by
  simpa using List.find?_some first

/-- A live key's first matching home is the bucket that lookup finds. -/
theorem findKeyIdx_of_firstMatch {key : HashedKey} {idx : ℕ} (first : firstMatch table key = some idx)
    (alive : (table.bucket idx).isTombstone = false) : table.findKeyIdx key = some idx := by
  have held := matchesKey_iff.mp (matchesKey_of_firstMatch first)
  exact find?_of_stronger first (fun query answer => matchesKey_iff.mpr (answers_eq_true.mp answer).1)
    (answers_eq_true.mpr ⟨held, alive⟩)

/-- Where no home bears the key's bytes there is nothing to find. -/
theorem findKeyIdx_of_firstMatch_none {key : HashedKey} (none_ : firstMatch table key = none) :
    table.findKeyIdx key = none := by
  rw [firstMatch, List.find?_eq_none] at none_
  rw [CuckooTable.findKeyIdx, List.find?_eq_none]
  intro idx home answer
  exact none_ idx home (matchesKey_iff.mpr (answers_eq_true.mp answer).1)

/-- A key whose first matching home is a tombstone is not found. -/
theorem findKeyIdx_of_tombstone {key : HashedKey} {idx : ℕ} (valid : WellPlaced table)
    (never : NeverBehindTombstone table) (nonzero : key.hash ≠ 0)
    (first : firstMatch table key = some idx) (tomb : (table.bucket idx).isTombstone = true) :
    table.findKeyIdx key = none := by
  simp only [firstMatch, List.find?_cons, List.find?_nil] at first
  cases held : (table.bucket (table.h1 key.hash)).matchesKey key.hash key.digest with
  | true =>
    rw [held] at first
    cases first
    exact findKeyIdx_of_absent valid.two nonzero (never key nonzero tomb held)
  | false =>
    rw [held] at first
    rw [CuckooTable.findKeyIdx, List.find?_eq_none]
    cases otherHeld : (table.bucket (table.h2 key.hash)).matchesKey key.hash key.digest with
    | true =>
      rw [otherHeld] at first
      cases first
      intro query home
      rw [List.mem_cons, List.mem_singleton] at home
      rcases home with rfl | rfl
      · simp [CuckooTable.answers, held]
      · simp [CuckooTable.answers, tomb]
    | false =>
      rw [otherHeld] at first
      cases first

end Tombstones

/-- The first home that bears the key's bytes, if any, is not a tombstone, and an extent it points to
reads as its own bytes from the header on. -/
def SameForBothReads (table : CuckooTable) (region : LargeObjectRegion) (key : HashedKey) : Prop :=
  ∀ idx, firstMatch table key = some idx →
    (table.bucket idx).isTombstone = false ∧
    ((table.bucket idx).isExtent = true →
      region.read (table.bucket idx).extentRef.1.toNat =
        some (ByteMemory.read region.buffer (table.bucket idx).extentRef.1.toNat
          (table.bucket idx).extentRef.2.toNat))

/-- After every run, the remote and the local read of a key return the same exactly when the key's
first matching home is the same for both. -/
theorem remote_read_agrees_iff {bucketCount : ℕ} (maxKick : ℕ)
    (powerOfTwo : bucketCount.isPowerOfTwo) (two : 2 ≤ bucketCount)
    (ops : List TableOp) (region : LargeObjectRegion) (key : HashedKey) (nonzero : key.hash ≠ 0)
    (transport : Transport) (regions : RemoteRegions) :
    let table := runTable (CuckooTable.new bucketCount maxKick powerOfTwo) ops
    Serves transport regions table.buckets region.buffer region.size →
      (getRemote key transport regions bucketCount =
          ClientReader.get key table.buckets (some region) bucketCount ↔
        SameForBothReads table region key) := by
  intro table serves
  have fresh := WellPlaced.new maxKick powerOfTwo two
  have valid : WellPlaced table := wellPlaced_runTable fresh ops
  have unlocked : Unlocked table := unlocked_runTable (unlocked_new bucketCount maxKick powerOfTwo) ops
  have never : NeverBehindTombstone table :=
    neverBehindTombstone_runTable fresh (neverBehindTombstone_new bucketCount maxKick powerOfTwo) ops
  have count : table.bucketCount = bucketCount := bucketCount_runTable ops
  rw [← count, getRemote_eq serves unlocked valid.two nonzero, get_eq_lookup valid unlocked nonzero,
    CuckooTable.lookup]
  unfold SameForBothReads
  cases first : firstMatch table key with
  | none => simp [findKeyIdx_of_firstMatch_none first]
  | some idx =>
    simp only [Option.some.injEq, forall_eq']
    cases tomb : (table.bucket idx).isTombstone with
    | true =>
      rw [findKeyIdx_of_tombstone valid never nonzero first tomb]
      refine iff_of_false ?_ (by simp)
      intro same
      cases value : extractValue (table.bucket idx) transport regions <;> rw [value] at same <;> cases same
    | false =>
      rw [findKeyIdx_of_firstMatch first tomb]
      cases extent : (table.bucket idx).isExtent with
      | false =>
        simp [extractValue, isInline_eq, extent, LookupResult.readValue, CuckooTable.readBucketValue,
          HashBucket.mode, HashBucket.inlineValue, Functor.map, Except.map]
      | true =>
        simp only [true_and, true_imp_iff]
        rw [← extractValue_eq_region_iff serves extent]
        simp [LookupResult.readValue, CuckooTable.readBucketValue, HashBucket.mode, extent]

/-- The region of a server and its client, as the demonstrations below address them. -/
def demoRegions : RemoteRegions := ⟨0x10000, 1, 0x20000, 2, 7⟩

/-- An Inline key is read remotely as it is locally. -/
theorem remote_read_agrees_inline :
    let table := runTable (CuckooTable.new 2 16 ⟨1, rfl⟩) [.insert ⟨2, zeros 16⟩ [7] .inline]
    let region := LargeObjectRegion.new 64
    let transport := serving demoRegions table.buckets region.buffer region.size
    getRemote ⟨2, zeros 16⟩ transport demoRegions 2 =
      ClientReader.get ⟨2, zeros 16⟩ table.buckets (some region) 2 := by
  intro table region transport
  have distinct : demoRegions.largeObjRkey ≠ demoRegions.hashTableRkey := by decide
  have fits : 64 * table.buckets.length ≤ 2 ^ 64 := by rw [table.sized]; decide
  have serves := serves_serving distinct fits region.buffer region.size
  refine (remote_read_agrees_iff 16 (⟨1, rfl⟩ : Nat.isPowerOfTwo 2) le_rfl _ region
    ⟨2, zeros 16⟩ (by decide) transport demoRegions serves).mpr ?_
  intro idx first
  have home : firstMatch table ⟨2, zeros 16⟩ = some 0 := by decide +kernel
  obtain rfl := Option.some.inj (home.symm.trans first)
  refine ⟨by decide +kernel, fun extent => ?_⟩
  exact absurd extent (by decide +kernel)

/-- A deleted key is absent locally and still served remotely. -/
theorem remote_read_returns_deleted_key :
    let table := runTable (CuckooTable.new 2 16 ⟨1, rfl⟩)
      [.insert ⟨2, zeros 16⟩ [7] .inline, .delete ⟨2, zeros 16⟩]
    let region := LargeObjectRegion.new 64
    let transport := serving demoRegions table.buckets region.buffer region.size
    ClientReader.get ⟨2, zeros 16⟩ table.buckets (some region) 2 = .ok none ∧
      getRemote ⟨2, zeros 16⟩ transport demoRegions 2 = .ok (some ⟨padded [7], .inline⟩) := by
  intro table region transport
  have distinct : demoRegions.largeObjRkey ≠ demoRegions.hashTableRkey := by decide
  have fits : 64 * table.buckets.length ≤ 2 ^ 64 := by rw [table.sized]; decide
  have unlocked : Unlocked table := unlocked_runTable (unlocked_new 2 16 ⟨1, rfl⟩) _
  have first : firstMatch table ⟨2, zeros 16⟩ = some 0 := by decide +kernel
  have value : extractValue (table.bucket 0) transport demoRegions = .ok ⟨padded [7], .inline⟩ := by
    decide +kernel
  refine ⟨by decide +kernel, ?_⟩
  rw [show 2 = table.bucketCount from rfl, getRemote_eq
    (serves_serving distinct fits region.buffer region.size) unlocked le_rfl (by decide), first]
  exact congrArg (some <$> ·) value

end Rdmas.Soundness
