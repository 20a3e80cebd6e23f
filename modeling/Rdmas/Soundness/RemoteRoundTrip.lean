import Rdmas.Soundness.RemoteInsert
import Rdmas.Soundness.RemoteRead

/-! # Remote insertion followed by a remote read

A single client inserts over a transport and reads the key back. The insertion runs alone, so its
machine has one run; what it leaves in the table and in the free-list region is computed once and then
read through the remote read path.
-/

namespace Rdmas.Soundness

open Rdmas.Model LittleEndian ByteMemory FixedBytes ClientReader Runs

section Alone

variable {xxh64 : Xxh64} {call : InsertCall} {table : CuckooTable}
variable {region : Memory} {labels : List Unit} {final : InsertState Unit} {idx : ℕ}

private theorem step_of_returned {calls : Unit → InsertCall} {result : Except RdmaError WriteResult}
    {state : InsertState Unit} (returned : state.clients () = .returned result) (label : Unit) :
    state.step xxh64 calls label = none := by
  simp only [InsertState.step, returned, InsertPc.step, Option.map_none]

/-- A single call with a free home completes. -/
theorem insertion_completes (xxh64 : Xxh64) (region : Memory)
    (unlocked : ∀ idx, (table.bucket idx).isLocked = false) (heads : firstHome table call.key = some idx) :
    ∃ labels final, run (InsertState.step xxh64 fun _ : Unit => call) (.initial table region) labels =
        some final ∧ final.clients () = .returned (.ok (.inserted idx)) ∧
      final.table = table.setBucket idx (call.newBucket (prepared xxh64 call region).2) ∧
      final.region = (prepared xxh64 call region).1 := by
  have alone : ∃ next : InsertState Unit, Reaches (InsertState.step xxh64 fun _ => call)
      (.initial table region) next ∧ next.table = _ ∧ next.region = _ ∧ next.clients () = _ :=
    reaches_inserted xxh64 (.initial table region) rfl unlocked heads
  obtain ⟨final, ⟨labels, reached⟩, tableEq, regionEq, done⟩ := alone
  exact ⟨labels, final, reached, done, tableEq, regionEq⟩

/-- A single call that returns `Inserted` has written its bucket to the first free home, and its
extent, if any, to the region. -/
theorem inserted_alone (unlocked : ∀ idx, (table.bucket idx).isLocked = false)
    (reached : run (InsertState.step xxh64 fun _ => call) (.initial table region) labels = some final)
    (returned : final.clients () = .returned (.ok (.inserted idx))) :
    firstHome table call.key = some idx ∧
      final.table = table.setBucket idx (call.newBucket (prepared xxh64 call region).2) ∧
      final.region = (prepared xxh64 call region).1 := by
  cases heads : firstHome table call.key with
  | none =>
    have gaveUp : ∃ next : InsertState Unit, Reaches (InsertState.step xxh64 fun _ => call)
        (.initial table region) next ∧ next.clients () = .returned (.ok .tableFull) :=
      reaches_tableFull xxh64 (.initial table region) rfl unlocked heads
    obtain ⟨next, ⟨_, toNext⟩, full⟩ := gaveUp
    have same := eq_of_stopped reached toNext (step_of_returned returned) (step_of_returned full)
    rw [same, full] at returned
    cases returned
  | some home =>
    obtain ⟨_, next, toNext, done, tableEq, regionEq⟩ := insertion_completes xxh64 region unlocked heads
    have same := eq_of_stopped reached toNext (step_of_returned returned) (step_of_returned done)
    rw [same, done] at returned
    obtain rfl : home = idx := by injection returned with ok; injection ok with ok; injection ok
    exact ⟨rfl, same ▸ tableEq, same ▸ regionEq⟩

/-- The bucket of a new key is found in the home it went to. -/
theorem firstMatch_inserted (two : 2 ≤ table.bucketCount)
    (absent : ∀ entry ∈ liveEntries table, entry.key ≠ call.key)
    (heads : firstHome table call.key = some idx) (oldOffset : ℕ) :
    firstMatch (table.setBucket idx (call.newBucket oldOffset)) call.key = some idx := by
  have home : IsHome table call.key idx := mem_homes.mp (List.mem_of_find?_eq_some heads)
  have own : (call.newBucket oldOffset).matchesKey call.key.hash call.key.digest = true := by
    simp [HashBucket.matchesKey]
  simp only [firstMatch, CuckooTable.setBucket_h1, CuckooTable.setBucket_h2, List.find?_cons,
    List.find?_nil]
  rw [table.bucket_setBucket (home.lt two), table.bucket_setBucket (home.lt two)]
  by_cases first : idx = table.h1 call.key.hash
  · rw [if_pos first, own, first]
  · -- The first home is taken, and not by the key.
    have other : (table.bucket (table.h1 call.key.hash)).matchesKey call.key.hash call.key.digest
        = false := by
      rw [Bool.eq_false_iff]
      intro held
      have occupied : (table.bucket (table.h1 call.key.hash)).isFree = false := by
        rw [Bool.eq_false_iff]
        intro free
        exact first (Option.some.inj (heads.symm.trans (firstHome_first free)))
      refine absent _ (mem_liveEntries.mpr ⟨table.h1 call.key.hash, table.h1_lt _,
        entryOf_eq_some.mpr ⟨occupied, rfl⟩⟩) (matchesKey_iff.mp held)
    have second : idx = table.h2 call.key.hash := home.resolve_left first
    rw [if_neg first, other, if_pos second, own, second]

theorem isLocked_newBucket (call : InsertCall) (oldOffset : ℕ) :
    (call.newBucket oldOffset).isLocked = false := by
  rw [HashBucket.isLocked, InsertCall.newBucket_lockVersion]
  exact LockWord.isLocked_modeBits call.mode

end Alone

section Image

/-- What a finished remote extent leaves in the region: the header with its checksum, and the data. -/
def extentImage (xxh64 : Xxh64) (data : Bytes) : Bytes :=
  (⟨extentMagic, 1, data.length, 0, (xxh64 data 0).toNat⟩ : ExtentHeaderV2).toBytes ++ data

/-- The three writes of an extent leave its image: the checksum field is written last. -/
theorem read_extent_writes (reserved : Memory) (offset : ℕ) (data : Bytes) (checksum : ℕ) :
    ByteMemory.read (write (write (write reserved offset
        (⟨extentMagic, 1, data.length, 0, 0⟩ : ExtentHeaderV2).toBytes) (offset + headerSize) data)
        (offset + 24) (encode 8 checksum)) offset (headerSize + data.length) =
      (⟨extentMagic, 1, data.length, 0, checksum⟩ : ExtentHeaderV2).toBytes ++ data := by
  have whole : headerSize + data.length = 24 + (8 + data.length) := by
    simp only [headerSize]
    omega
  have header : ByteMemory.read (write reserved offset
      (⟨extentMagic, 1, data.length, 0, 0⟩ : ExtentHeaderV2).toBytes) (offset + 0) 24 = _ :=
    read_write_inside (by simp [headerSize])
  rw [Nat.add_zero, List.drop_zero] at header
  have field : ByteMemory.read (write _ (offset + 24) (encode 8 checksum)) (offset + 24) 8 = _ :=
    read_write (write (write reserved offset
      (⟨extentMagic, 1, data.length, 0, 0⟩ : ExtentHeaderV2).toBytes) (offset + headerSize) data)
      (offset + 24) (encode 8 checksum)
  rw [whole, read_append, read_append, field, read_write_outside (.inl le_rfl),
    read_write_outside (.inl (by simp only [headerSize]; omega)), header,
    read_write_outside (.inr (by simp)), show offset + 24 + 8 = offset + headerSize from rfl, read_write]
  rfl

private theorem read_allocatedRegion (xxh64 : Xxh64) (data : Bytes) (region : Memory) :
    ByteMemory.read (allocatedRegion xxh64 data region) (bumpOffset region)
      (headerSize + data.length) = extentImage xxh64 data :=
  read_extent_writes _ _ data _

end Image

/-- The value a read should return after an insertion: Inline values are cut or padded to a body. -/
def storedValue (value : Bytes) : BucketMode → Bytes
  | .inline => padded (value.take 32)
  | .extent => value

theorem body_newBucket {call : InsertCall} (mode : call.mode = .inline) (oldOffset : ℕ) :
    (call.newBucket oldOffset).body.toList = padded (call.value.take 32) := by
  have packed : (call.newBucket oldOffset).body = CuckooTable.packBody call.value .inline := by
    simp only [InsertCall.newBucket, mode]
    rfl
  rw [packed, toList_packBody]

theorem extentRef_newBucket {call : InsertCall} (mode : call.mode = .extent) (oldOffset : ℕ) :
    (call.newBucket oldOffset).extentRef =
      (BitVec.ofNat 64 oldOffset, BitVec.ofNat 64 call.value.length) := by
  simp only [InsertCall.newBucket, mode]
  exact HashBucket.extentRefOf_copy _ _ _

section RoundTrip

variable {xxh64 : Xxh64} {call : InsertCall} {table : CuckooTable}
variable {region : Memory} {size idx : ℕ} {transport : Transport} {regions : RemoteRegions}

/-- What a remote read returns of a key that was just inserted. -/
theorem getRemote_inserted (two : 2 ≤ table.bucketCount) (unlocked : Unlocked table)
    (nonzero : call.key.hash ≠ 0) (absent : ∀ entry ∈ liveEntries table, entry.key ≠ call.key)
    (heads : firstHome table call.key = some idx) (room : call.mode = .extent →
      bumpOffset region + extentTotal call.value.length ≤ size ∧ size ≤ 2 ^ 64)
    (serves : Serves transport regions
      (table.setBucket idx (call.newBucket (prepared xxh64 call region).2)).buckets
      (prepared xxh64 call region).1 size) :
    getRemote call.key transport regions table.bucketCount =
      .ok (some ⟨match call.mode with
        | .inline => padded (call.value.take 32)
        | .extent => (extentImage xxh64 call.value).take call.value.length, call.mode⟩) := by
  have home : IsHome table call.key idx := mem_homes.mp (List.mem_of_find?_eq_some heads)
  have read : getRemote call.key transport regions (table.setBucket idx (call.newBucket
      (prepared xxh64 call region).2)).bucketCount = _ :=
    getRemote_eq serves (unlocked.setBucket idx (isLocked_newBucket call _)) two nonzero
  rw [firstMatch_inserted two absent heads] at read
  simp only [table.bucket_setBucket (home.lt two), if_true] at read
  refine read.trans (congrArg (some <$> ·) (?_ : extractValue _ _ _ = .ok _))
  cases mode : call.mode with
  | inline =>
    have inline_ : (call.newBucket (prepared xxh64 call region).2).isInline = true := by
      rw [HashBucket.isInline, InsertCall.newBucket_lockVersion, mode]
      rfl
    rw [extractValue, if_pos inline_, HashBucket.inlineValue, body_newBucket mode]
  | extent =>
    simp only [prepared, mode] at serves ⊢
    obtain ⟨fits, addressable⟩ := room mode
    have large := le_extentTotal call.value.length
    simp only [headerSize] at large
    have extent : (call.newBucket (bumpOffset region)).isExtent = true := by
      rw [HashBucket.isExtent, InsertCall.newBucket_lockVersion, mode]
      rfl
    have reference := extentRef_newBucket mode (bumpOffset region)
    have offset : (call.newBucket (bumpOffset region)).extentRef.1.toNat = bumpOffset region := by
      rw [reference, BitVec.toNat_ofNat, Nat.mod_eq_of_lt (by omega)]
    have length : (call.newBucket (bumpOffset region)).extentRef.2.toNat = call.value.length := by
      rw [reference, BitVec.toNat_ofNat, Nat.mod_eq_of_lt (by omega)]
    have image := read_allocatedRegion xxh64 call.value region
    have shorter : call.value.length ≤ headerSize + call.value.length := Nat.le_add_left _ _
    refine (extractValue_eq_ok serves extent ?_).mpr ?_
    · rw [offset, List.length_take]
      omega
    · rw [offset, length, ← image, read_take shorter]

/-- A single client reads back what it has just inserted into an empty table exactly when the value is
Inline or the same as the first bytes of its own extent. -/
theorem remote_put_get_iff (xxh64 : Xxh64) {bucketCount : ℕ} (maxKick : ℕ)
    (powerOfTwo : bucketCount.isPowerOfTwo) (two : 2 ≤ bucketCount) (call : InsertCall)
    (nonzero : call.key.hash ≠ 0) (region : Memory) (size : ℕ) (addressable : size ≤ 2 ^ 64)
    (room : call.mode = .extent → bumpOffset region + extentTotal call.value.length ≤ size)
    (labels : List Unit) (final : InsertState Unit) (idx : ℕ)
    (reached : run (InsertState.step xxh64 fun _ => call)
      (.initial (CuckooTable.new bucketCount maxKick powerOfTwo) region) labels = some final)
    (returned : final.clients () = .returned (.ok (.inserted idx)))
    (transport : Transport) (regions : RemoteRegions)
    (serves : Serves transport regions final.table.buckets final.region size) :
    getRemote call.key transport regions bucketCount =
        .ok (some ⟨storedValue call.value call.mode, call.mode⟩) ↔
      call.mode = .inline ∨
        call.value = (extentImage xxh64 call.value).take call.value.length := by
  have unlocked := unlocked_new bucketCount maxKick powerOfTwo
  obtain ⟨heads, tableEq, regionEq⟩ := inserted_alone unlocked reached returned
  rw [tableEq, regionEq] at serves
  have absent : ∀ entry ∈ liveEntries (CuckooTable.new bucketCount maxKick powerOfTwo),
      entry.key ≠ call.key := by
    rw [liveEntries_new]
    exact fun entry member => absurd member (Multiset.notMem_zero entry)
  have read : getRemote call.key transport regions bucketCount = _ :=
    getRemote_inserted two unlocked nonzero absent heads (fun mode => ⟨room mode, addressable⟩) serves
  rw [read]
  cases mode : call.mode with
  | inline => simp [storedValue]
  | extent => simpa [storedValue] using eq_comm

section Demonstration

/-- The hash of the test vector "a" with seed 0, the only one computed below. -/
def xxh64OfA : Xxh64 := fun _ _ => 0xD24EC4F1A98C6E5B

/-- A region whose first extent goes to offset 64. -/
def freshRegion : Memory := write (fun _ => 0) 0 (encode 8 64)

theorem two_powerOfTwo : Nat.isPowerOfTwo 2 := ⟨1, rfl⟩

/-- An Inline value is read back, padded. -/
theorem remote_put_get_inline :
    let call : InsertCall := ⟨⟨2, zeros 16⟩, [0x61], .inline⟩
    ∃ labels final, run (InsertState.step xxh64OfA fun _ : Unit => call)
        (.initial (CuckooTable.new 2 16 two_powerOfTwo) freshRegion) labels = some final ∧
      final.clients () = .returned (.ok (.inserted 0)) ∧
      getRemote call.key (serving demoRegions final.table.buckets final.region 256) demoRegions 2 =
        .ok (some ⟨padded [0x61], .inline⟩) := by
  intro call
  have heads : firstHome (CuckooTable.new 2 16 two_powerOfTwo) call.key = some 0 := by decide +kernel
  obtain ⟨labels, final, reached, returned, tableEq, _⟩ :=
    insertion_completes xxh64OfA freshRegion (unlocked_new 2 16 two_powerOfTwo) heads
  have fits : 64 * final.table.buckets.length ≤ 2 ^ 64 := by
    rw [final.table.sized, tableEq]
    decide
  exact ⟨labels, final, reached, returned, (remote_put_get_iff xxh64OfA 16 two_powerOfTwo le_rfl call (by decide)
    freshRegion 256 (by decide) nofun labels final 0 reached returned _ demoRegions
    (serves_serving (by decide) fits _ _)).mpr (.inl rfl)⟩

/-- The Extent value "a" is read back as the first byte of its header's magic. -/
theorem remote_get_returns_header_byte :
    let call : InsertCall := ⟨⟨2, zeros 16⟩, [0x61], .extent⟩
    ∃ labels final, run (InsertState.step xxh64OfA fun _ : Unit => call)
        (.initial (CuckooTable.new 2 16 two_powerOfTwo) freshRegion) labels = some final ∧
      final.clients () = .returned (.ok (.inserted 0)) ∧
      getRemote call.key (serving demoRegions final.table.buckets final.region 256) demoRegions 2 =
        .ok (some ⟨[0x41], .extent⟩) := by
  intro call
  have heads : firstHome (CuckooTable.new 2 16 two_powerOfTwo) call.key = some 0 := by decide +kernel
  have unlocked := unlocked_new 2 16 two_powerOfTwo
  obtain ⟨labels, final, reached, returned, tableEq, regionEq⟩ :=
    insertion_completes xxh64OfA freshRegion unlocked heads
  have fits : 64 * final.table.buckets.length ≤ 2 ^ 64 := by
    rw [final.table.sized, tableEq]
    decide
  have absent : ∀ entry ∈ liveEntries (CuckooTable.new 2 16 two_powerOfTwo), entry.key ≠ call.key := by
    rw [liveEntries_new]
    exact fun entry member => absurd member (Multiset.notMem_zero entry)
  have room : call.mode = .extent →
      bumpOffset freshRegion + extentTotal call.value.length ≤ 256 ∧ 256 ≤ 2 ^ 64 := by
    decide +kernel
  have distinct : demoRegions.largeObjRkey ≠ demoRegions.hashTableRkey := by decide
  have serves := serves_serving distinct fits final.region 256
  refine ⟨labels, final, reached, returned, ?_⟩
  rw [tableEq, regionEq] at serves ⊢
  have byte : (extentImage xxh64OfA [0x61]).take 1 = [0x41] := by decide +kernel
  refine (getRemote_inserted le_rfl unlocked (by decide) absent heads room serves).trans ?_
  change Except.ok (some (ReadResult.mk ((extentImage xxh64OfA [0x61]).take 1) .extent)) = _
  rw [byte]

end Demonstration

end RoundTrip

end Rdmas.Soundness
