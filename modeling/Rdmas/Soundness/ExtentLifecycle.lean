import Rdmas.Soundness.EpochGc

/-! # The lifecycle of an extent

Marked, swept or freed, and unreadable until its offset is allocated again: that is what should become of
an extent of either format. It holds of V2 extents of any length, since marks and the zeroing of the magic
land on the fields of their header. In a V1 header the same bytes hold the magic and the length, so a mark
makes the extent unreadable and a release leaves it readable.
-/

namespace Rdmas.Soundness

open Rdmas.Model LittleEndian ByteMemory Tiling Runs Function

namespace ExtentRecord

/-- The record as its header can tell it: the length field of V2 has 32 bits. -/
def told (record : ExtentRecord) : ExtentRecord :=
  match record.format with
  | .v1 => record
  | .v2 => { record with payload := record.payload.take (record.payload.length % 2 ^ 32) }

variable (record : ExtentRecord)

@[simp] theorem told_live : record.told.live = record.live := by
  obtain ⟨format, payload, mark, live⟩ := record
  cases format <;> rfl

private theorem told_due (minActiveEpoch : BitVec 64) :
    record.told.due minActiveEpoch = record.due minActiveEpoch := by
  obtain ⟨format, payload, mark, live⟩ := record
  cases format <;> rfl

private theorem told_release : told { record with live := false } = { record.told with live := false } := by
  obtain ⟨format, payload, mark, live⟩ := record
  cases format <;> rfl

theorem told_swept (minActiveEpoch : BitVec 64) :
    (record.swept minActiveEpoch).told = record.told.swept minActiveEpoch := by
  rw [swept, swept, told_due]
  split
  · exact record.told_release
  · rfl

end ExtentRecord

/-- The ledger as the headers can tell it. -/
def Ledger.told (ledger : Ledger) : Ledger := fun offset => (ledger offset).map ExtentRecord.told

namespace Ledger

variable {ledger : Ledger} {offset : ℕ} {record : ExtentRecord}

private theorem told_update (entry : Option ExtentRecord) :
    Ledger.told (update ledger offset entry) =
      update ledger.told offset (entry.map ExtentRecord.told) := by
  funext other
  simp only [Ledger.told, update_apply]
  split <;> rfl

theorem told_enter (returned : Option ℕ) :
    Ledger.told (RegionState.enter ledger returned record) =
      RegionState.enter ledger.told returned record.told := by
  cases returned with
  | none => rfl
  | some offset => exact told_update _

theorem told_swept (minActiveEpoch : BitVec 64) :
    Ledger.told (fun offset => (ledger offset).map fun record => record.swept minActiveEpoch) =
      fun offset => (ledger.told offset).map fun record => record.swept minActiveEpoch := by
  funext offset
  simp only [Ledger.told, Option.map_map]
  exact congrArg (Option.map · (ledger offset)) (funext fun record => record.told_swept minActiveEpoch)

theorem told_eq_some (found : ledger offset = some record) :
    ledger.told offset = some record.told := by
  rw [Ledger.told, found, Option.map_some]

end Ledger

namespace RegionState

variable {leaked : List Range} {state next later : RegionState} {offset : ℕ} {record : ExtentRecord}
variable {xxh64 : Xxh64} {op : RegionOp} {ops : List RegionOp}

section Changes

theorem freeList_release (region : LargeObjectRegion) (offset : ℕ) (decoded : DecodedHeader) :
    (region.release offset decoded).freeList = region.freeList ++ [(offset, decoded.totalLen)] := by
  simp only [LargeObjectRegion.release, LargeObjectRegion.zeroMagic]
  split <;> rfl

namespace AccountedBut

variable (accounted : AccountedBut leaked state)
include accounted

theorem release {payload : Bytes}
    {mark : BitVec 64} (found : state.ledger offset = some ⟨.v2, payload, mark, true⟩) :
    AccountedBut leaked ⟨state.region.release offset (ExtentRecord.decoded ⟨.v2, payload, mark, true⟩),
      update state.ledger offset (some ⟨.v2, payload, mark, false⟩)⟩ := by
  have released := Accounted.release accounted found
  rw [release_withFreeList] at released
  refine released.perm ?_
  simp only [freeList_release, List.append_assoc]
  exact List.perm_append_comm.append_left _

theorem decodes (found : state.ledger offset = some record) :
    state.region.readDecodedHeader offset = some record.decoded := by
  have decodes := Accounted.decodes accounted found
  exact decodes

theorem free_eq (found : state.ledger offset = some record) (live : record.live = true) :
    state.region.free offset = (state.region.release offset record.decoded, .ok ()) := by
  have member : offset ∈ state.region.allocated := (accounted.allocated offset).mpr ⟨_, found, live⟩
  have magic := (ExtentRecord.decoded_of_live live).1
  simp only [LargeObjectRegion.free, accounted.decodes found, if_neg (not_not_intro member),
    if_neg (not_not_intro magic)]

/-- A V1 extent that fits the region has a length that fits its field. -/
theorem writeExtentV1 (data : Bytes) (small : state.region.size < 2 ^ 64) :
    AccountedBut leaked ⟨(state.region.writeExtentV1 data).1,
      enter state.ledger (state.region.writeExtentV1 data).2 ⟨.v1, data, 0, true⟩⟩ := by
  by_cases room : state.region.nextOffset + (24 + data.length) > state.region.size
  · simp only [LargeObjectRegion.writeExtentV1, if_pos room]
    exact accounted
  · have outside := ExtentRecord.writeExtentV1_outside state.region data
    have stored := ExtentRecord.stored_writeExtentV1 (by omega) room
    simp only [LargeObjectRegion.writeExtentV1, if_neg room] at outside stored ⊢
    exact Accounted.bump accounted rfl (sound_v1 data) (Nat.le_of_not_lt room) outside stored

theorem writeExtentV2Checksummed (xxh64 : Xxh64) (data : Bytes) :
    ∃ leaked, AccountedBut leaked ⟨(state.region.writeExtentV2Checksummed xxh64 data).1,
      enter state.ledger (state.region.writeExtentV2Checksummed xxh64 data).2
        ⟨.v2, data.take (data.length % 2 ^ 32), 0, true⟩⟩ := by
  simp only [LargeObjectRegion.writeExtentV2Checksummed]
  split
  · exact ⟨leaked, accounted⟩
  · next room => exact accounted.putExtent data _ (Nat.le_of_not_lt room)

end AccountedBut

theorem size_release (region : LargeObjectRegion) (offset : ℕ) (decoded : DecodedHeader) :
    (region.release offset decoded).size = region.size := by
  simp only [LargeObjectRegion.release, LargeObjectRegion.zeroMagic]
  split <;> rfl

theorem size_sweep (region : LargeObjectRegion) (minActiveEpoch : BitVec 64) (order : List ℕ) :
    (region.sweep minActiveEpoch order).1.size = region.size := by
  induction order generalizing region with
  | nil => rfl
  | cons offset order ih =>
    simp only [LargeObjectRegion.sweep]
    split
    · rw [ih, size_release]
    · exact ih region

/-- No call resizes the region. -/
theorem size_apply (op : RegionOp) : (state.apply xxh64 op).region.size = state.region.size := by
  cases op with
  | allocate data =>
    simp only [RegionState.apply]
    rcases allocated : state.region.allocate data with ⟨region, _ | offset⟩
    · rw [ExtentRecord.allocate_eq_none allocated]
    · exact (ExtentRecord.allocate_eq_some allocated).1
  | writeExtentV1 data =>
    simp only [RegionState.apply, LargeObjectRegion.writeExtentV1]
    split <;> rfl
  | writeExtentV2Checksummed data =>
    simp only [RegionState.apply, LargeObjectRegion.writeExtentV2Checksummed]
    split <;> rfl
  | free offset =>
    simp only [RegionState.apply, LargeObjectRegion.free]
    split
    · rfl
    · split
      · rfl
      · split
        · rfl
        · exact size_release ..
  | markForGc offset epoch =>
    simp only [RegionState.apply]
    rw [markForGc_frame]
  | sweep minActiveEpoch order => exact size_sweep ..

end Changes

/-- Frees and marks are of allocated V2 extents, with epochs whose low half is not the magic; sweeps are
over any enumeration of the allocated set. -/
def Careful (state : RegionState) : RegionOp → Prop
  | .allocate _ => True
  | .writeExtentV1 _ => True
  | .writeExtentV2Checksummed _ => True
  | .free offset => state.HoldsV2 offset
  | .markForGc offset epoch => state.HoldsV2 offset ∧ epoch.toNat % 2 ^ 32 ≠ extentMagic
  | .sweep _ order => order.Nodup ∧ order.toFinset = state.region.allocated

instance (state : RegionState) : (op : RegionOp) → Decidable (state.Careful op)
  | .allocate _ => inferInstanceAs (Decidable True)
  | .writeExtentV1 _ => inferInstanceAs (Decidable True)
  | .writeExtentV2Checksummed _ => inferInstanceAs (Decidable True)
  | .free _ => inferInstanceAs (Decidable (_ = true))
  | .markForGc _ _ => inferInstanceAs (Decidable (_ = true ∧ _ ≠ _))
  | .sweep _ order => inferInstanceAs (Decidable (order.Nodup ∧ _ = _))

/-- One call of a careful user. -/
def carefulStep (xxh64 : Xxh64) (state : RegionState) (op : RegionOp) : Option RegionState :=
  if state.Careful op then some (state.apply xxh64 op) else none

/-- What careful users keep: the region agrees with what the headers can tell of its ledger. -/
structure Kept (state : RegionState) : Prop where
  small : state.region.size < 2 ^ 64
  accounted : ∃ leaked, AccountedBut leaked ⟨state.region, state.ledger.told⟩

theorem kept_fresh {size : ℕ} (small : size < 2 ^ 64) : (fresh size).Kept where
  small := small
  accounted := ⟨[], accounted_fresh size⟩

theorem HoldsV2.told (holds : state.HoldsV2 offset) : ∃ payload mark,
    state.ledger offset = some ⟨.v2, payload, mark, true⟩ ∧
      state.ledger.told offset = some ⟨.v2, payload.take (payload.length % 2 ^ 32), mark, true⟩ := by
  obtain ⟨payload, mark, found⟩ := holds.elim
  exact ⟨payload, mark, found, Ledger.told_eq_some found⟩

theorem Kept.apply (kept : state.Kept) (careful : state.Careful op) :
    (state.apply xxh64 op).Kept := by
  obtain ⟨small, leaked, accounted⟩ := kept
  refine ⟨by rwa [size_apply], ?_⟩
  cases op with
  | allocate data =>
    obtain ⟨leaked, kept⟩ := accounted.allocate data
    refine ⟨leaked, ?_⟩
    simp only [RegionState.apply, Ledger.told_enter]
    exact kept
  | writeExtentV1 data =>
    refine ⟨leaked, ?_⟩
    simp only [RegionState.apply, Ledger.told_enter]
    exact accounted.writeExtentV1 data small
  | writeExtentV2Checksummed data =>
    obtain ⟨leaked, kept⟩ := accounted.writeExtentV2Checksummed xxh64 data
    refine ⟨leaked, ?_⟩
    simp only [RegionState.apply, Ledger.told_enter]
    exact kept
  | free offset =>
    obtain ⟨payload, mark, found, told⟩ := HoldsV2.told careful
    refine ⟨leaked, ?_⟩
    simp only [RegionState.apply, found, Ledger.told_update, Option.map_some]
    have freed := accounted.free_eq told rfl
    simp only at freed
    rw [freed]
    exact accounted.release told
  | markForGc offset epoch =>
    obtain ⟨payload, mark, found, told⟩ := HoldsV2.told careful.1
    refine ⟨leaked, ?_⟩
    simp only [RegionState.apply, found, Ledger.told_update, Option.map_some]
    exact accounted.mark told careful.2
  | sweep minActiveEpoch order =>
    obtain ⟨distinct, enumerates⟩ := careful
    refine ⟨leaked, ?_⟩
    simp only [RegionState.apply, Ledger.told_swept]
    rw [Accounted.swept_eq_sweptLedger accounted minActiveEpoch enumerates]
    refine accounted.sweep minActiveEpoch distinct fun offset member => ?_
    rw [← enumerates]
    exact List.mem_toFinset.mpr member

theorem Kept.step (kept : state.Kept) (taken : carefulStep xxh64 state op = some next) : next.Kept := by
  simp only [carefulStep, Option.ite_none_right_eq_some, Option.some.injEq] at taken
  obtain ⟨careful, rfl⟩ := taken
  exact kept.apply careful

section Reading

theorem Kept.mem_allocated (kept : state.Kept) : offset ∈ state.region.allocated ↔
    ∃ record, state.ledger offset = some record ∧ record.live = true := by
  obtain ⟨_, leaked, accounted⟩ := kept
  have allocated := accounted.allocated offset
  simp only [withFreeList, Ledger.told] at allocated
  rw [allocated]
  cases state.ledger offset <;> simp

theorem Kept.sweep (kept : state.Kept) (minActiveEpoch : BitVec 64) {order : List ℕ}
    (distinct : order.Nodup) (enumerates : order.toFinset = state.region.allocated) :
    Kept ⟨(state.region.sweep minActiveEpoch order).1,
      fun offset => (state.ledger offset).map fun record => record.swept minActiveEpoch⟩ := by
  have swept : (state.apply (fun _ _ => 0) (.sweep minActiveEpoch order)).Kept :=
    kept.apply ⟨distinct, enumerates⟩
  exact swept

/-- A sweep spares the allocated extents that are not due. -/
theorem Kept.mem_sweep (kept : state.Kept) {minActiveEpoch : BitVec 64} {order : List ℕ}
    (distinct : order.Nodup) (enumerates : order.toFinset = state.region.allocated) :
    offset ∈ (state.region.sweep minActiveEpoch order).1.allocated ↔ ∃ record,
      state.ledger offset = some record ∧ record.live = true ∧ record.due minActiveEpoch = false := by
  refine (kept.sweep minActiveEpoch distinct enumerates).mem_allocated.trans ?_
  simp only [Option.map_eq_some_iff]
  constructor
  · rintro ⟨_, ⟨record, found, rfl⟩, live⟩
    cases due : record.due minActiveEpoch with
    | false =>
      simp only [ExtentRecord.swept, due, Bool.false_eq_true, if_false] at live
      exact ⟨record, found, live, due⟩
    | true => simp [ExtentRecord.swept, due] at live
  · rintro ⟨record, found, live, spared⟩
    exact ⟨_, ⟨record, found, rfl⟩, by simpa [ExtentRecord.swept, spared] using live⟩

/-- What a reader gets at an offset that was returned at some time. -/
theorem Kept.read_eq (kept : state.Kept) (found : state.ledger offset = some record) :
    state.region.read offset = if record.live then some record.told.payload else none := by
  obtain ⟨_, leaked, accounted⟩ := kept
  have reads := Accounted.read_eq accounted (Ledger.told_eq_some found)
  rwa [record.told_live] at reads

/-- No call forgets an offset. -/
theorem isSome_apply (known : (state.ledger offset).isSome) :
    ((state.apply xxh64 op).ledger offset).isSome := by
  have entered : ∀ returned record, (enter state.ledger returned record offset).isSome := by
    intro returned record
    cases returned with
    | none => exact known
    | some other =>
      simp only [enter, update_apply]
      split
      · rfl
      · exact known
  have updated : ∀ other (change : ExtentRecord → ExtentRecord),
      (update state.ledger other ((state.ledger other).map change) offset).isSome := by
    intro other change
    rw [update_apply]
    split
    · next same => rw [← same, Option.isSome_map]; exact known
    · exact known
  cases op with
  | allocate | writeExtentV1 | writeExtentV2Checksummed => exact entered _ _
  | free | markForGc => exact updated _ _
  | sweep minActiveEpoch order =>
    simp only [RegionState.apply, Option.isSome_map]
    exact known

end Reading

/-- Whatever careful calls follow, the offset reads as nothing unless it is allocated again. -/
def StaysUnreadable (xxh64 : Xxh64) (state : RegionState) (offset : ℕ) : Prop :=
  ∀ ops later, Runs.run (carefulStep xxh64) state ops = some later →
    offset ∉ later.region.allocated → later.region.read offset = none

theorem Kept.staysUnreadable (kept : state.Kept) (known : (state.ledger offset).isSome) :
    StaysUnreadable xxh64 state offset := by
  intro ops later reached missing
  have keep : ∀ {state : RegionState} {op next}, state.Kept ∧ (state.ledger offset).isSome →
      carefulStep xxh64 state op = some next → next.Kept ∧ (next.ledger offset).isSome := by
    rintro state op next ⟨kept, known⟩ taken
    refine ⟨kept.step taken, ?_⟩
    simp only [carefulStep, Option.ite_none_right_eq_some, Option.some.injEq] at taken
    exact taken.2 ▸ isSome_apply known
  obtain ⟨kept, known⟩ := run_invariant keep ⟨kept, known⟩ reached
  obtain ⟨record, found⟩ := Option.isSome_iff_exists.mp known
  rw [kept.mem_allocated] at missing
  rw [kept.read_eq found]
  simpa [found] using missing

/-- What should become of an allocated extent: a mark changes no read, a sweep above the mark frees it,
and once it is freed or swept it is unreadable until its offset is allocated again. -/
structure Lifecycle (xxh64 : Xxh64) (state : RegionState) (offset : ℕ) (epoch : BitVec 64) : Prop where
  marked : ∀ other ∈ state.region.allocated,
    (state.region.markForGc offset epoch).1.read other = state.region.read other
  swept : ∀ (minActiveEpoch : BitVec 64) (order : List ℕ), 0 < epoch.toNat →
    epoch.toNat < minActiveEpoch.toNat → order.Nodup →
    order.toFinset = (state.region.markForGc offset epoch).1.allocated →
    let next := (state.apply xxh64 (.markForGc offset epoch)).apply xxh64 (.sweep minActiveEpoch order)
    offset ∉ next.region.allocated ∧ (∃ length, (offset, length) ∈ next.region.freeList) ∧
      StaysUnreadable xxh64 next offset
  freed :
    let next := state.apply xxh64 (.free offset)
    offset ∉ next.region.allocated ∧ (∃ length, (offset, length) ∈ next.region.freeList) ∧
      StaysUnreadable xxh64 next offset

section Modern

/-- Marking a V2 extent changes no read. -/
theorem Kept.read_markForGc (kept : state.Kept) (holds : state.HoldsV2 offset) {epoch : BitVec 64}
    (unmistakable : epoch.toNat % 2 ^ 32 ≠ extentMagic) {other : ℕ}
    (member : other ∈ state.region.allocated) :
    (state.region.markForGc offset epoch).1.read other = state.region.read other := by
  have marked : (state.apply (fun _ _ => 0) (.markForGc offset epoch)).Kept :=
    kept.apply ⟨holds, unmistakable⟩
  obtain ⟨record, found, live⟩ := kept.mem_allocated.mp member
  have before := kept.read_eq found
  by_cases own : other = offset
  · subst own
    obtain ⟨payload, mark, held⟩ := holds.elim
    obtain rfl := Option.some.inj (held.symm.trans found)
    have remarked : (state.apply (fun _ _ => 0) (.markForGc other epoch)).ledger other =
        some ⟨.v2, payload, epoch, true⟩ := by simp [RegionState.apply, held]
    exact (marked.read_eq remarked).trans before.symm
  · have untouched : (state.apply (fun _ _ => 0) (.markForGc offset epoch)).ledger other =
        some record := by simp [RegionState.apply, own, found]
    exact (marked.read_eq untouched).trans before.symm

/-- The lifecycle of a V2 extent. -/
theorem Kept.lifecycle (kept : state.Kept) (holds : state.HoldsV2 offset) {epoch : BitVec 64}
    (unmistakable : epoch.toNat % 2 ^ 32 ≠ extentMagic) : Lifecycle xxh64 state offset epoch := by
  obtain ⟨payload, mark, found, told⟩ := holds.told
  have member : offset ∈ state.region.allocated := kept.mem_allocated.mpr ⟨_, found, rfl⟩
  have known : (state.ledger offset).isSome := by rw [found]; rfl
  constructor
  case marked => exact fun other => kept.read_markForGc holds unmistakable
  case swept =>
    intro minActiveEpoch order marks above distinct enumerates next
    have marked : (state.apply xxh64 (.markForGc offset epoch)).Kept := kept.apply ⟨holds, unmistakable⟩
    have swept : next.Kept := marked.apply ⟨distinct, enumerates⟩
    have gone : offset ∉ next.region.allocated := by
      rw [swept.mem_allocated]
      simp [next, RegionState.apply, found, ExtentRecord.swept, ExtentRecord.due, marks, above]
    have stillThere : offset ∈ (state.region.markForGc offset epoch).1.allocated := by
      rw [markForGc_frame]
      exact member
    exact ⟨gone, sweep_reclaims _ stillThere gone,
      swept.staysUnreadable (isSome_apply (isSome_apply known))⟩
  case freed =>
    intro next
    have freed : next.Kept := kept.apply holds
    obtain ⟨_, leaked, accounted⟩ := kept
    have released : next.region = state.region.release offset _ :=
      congrArg Prod.fst (accounted.free_eq told rfl)
    refine ⟨?_, ?_, freed.staysUnreadable (isSome_apply known)⟩
    · rw [released, allocated_release]
      exact Finset.notMem_erase _ _
    · rw [released, freeList_release]
      exact ⟨_, List.mem_append_right _ (List.mem_singleton.mpr rfl)⟩

end Modern

section Legacy

/-- Whatever has the magic at byte 16 is read as a V1 extent. -/
theorem read_of_legacy {region : LargeObjectRegion} (room : offset + 24 ≤ region.size)
    (magic : word region.buffer 4 (offset + 16) = extentMagic) :
    region.read offset =
      if offset + 24 + word region.buffer 8 offset > region.size then none
      else some (ByteMemory.read region.buffer (offset + 24) (word region.buffer 8 offset)) := by
  have legacy : LegacyHeader region offset := ⟨room, .inl magic⟩
  simp only [LargeObjectRegion.read, legacy.decodes, Option.bind_eq_bind, Option.bind_some,
    DecodedHeader.headerSize, Bool.false_eq_true, if_false]
  exact if_neg (not_not_intro rfl)

/-- Zeroing the low half of a length makes it no longer. -/
theorem word_zeroed_le (memory : Memory) (offset : ℕ) :
    word (write memory offset [0, 0, 0, 0]) 8 offset ≤ word memory 8 offset := by
  have high : word (write memory offset [0, 0, 0, 0]) 4 (offset + 4) = word memory 4 (offset + 4) :=
    word_write_outside (.inr le_rfl)
  have low : word (write memory offset (encode 4 0)) 4 offset = 0 := word_write (by decide)
  rw [word_add _ _ 4 4, word_add memory _ 4 4, high, show [0, 0, 0, 0] = encode 4 0 from rfl, low]
  omega

/-- A V1 extent is readable after its release: the magic at byte 16 stays and its length only shrinks. -/
theorem Kept.read_free_v1 (kept : state.Kept) {payload : Bytes} {mark : BitVec 64}
    (found : state.ledger offset = some ⟨.v1, payload, mark, true⟩) :
    (state.apply xxh64 (.free offset)).region.read offset ≠ none := by
  obtain ⟨_, leaked, accounted⟩ := kept
  have told : state.ledger.told offset = some ⟨.v1, payload, mark, true⟩ := Ledger.told_eq_some found
  obtain ⟨length, _, magic, _⟩ := accounted.stored offset _ told
  have inside : offset + (24 + payload.length) ≤ state.region.size :=
    (Accounted.footprint_fits accounted told).trans accounted.fits
  have shorter := word_zeroed_le state.region.buffer offset
  have lengthHeld : word state.region.buffer 8 offset = payload.length := length
  have released : (state.apply xxh64 (.free offset)).region = state.region.release offset _ :=
    congrArg Prod.fst (accounted.free_eq told rfl)
  rw [released, LargeObjectRegion.release, LargeObjectRegion.zeroMagic,
    if_pos (show offset + 4 ≤ state.region.size by omega), read_of_legacy]
  · simp only
    rw [if_neg (by omega)]
    exact Option.some_ne_none _
  · exact show offset + 24 ≤ state.region.size by omega
  · rw [word_write_outside (.inr (by simp))]
    exact magic

/-- The first eight bytes of a V2 header make a length that no payload has: the fifth is its version. -/
theorem le_word_of_version {memory : Memory} (version : memory (offset + 4) = 1) :
    2 ^ 32 ≤ word memory 8 offset := by
  have byte : word memory 1 (offset + 4) = 1 := by
    simp [word, ByteMemory.read, decode, version]
  have high := word_add memory (offset + 4) 1 3
  have whole := word_add memory offset 4 4
  simp only [Nat.reduceAdd] at high whole
  rw [byte] at high
  omega

/-- A mark that looks like the magic turns a V2 extent into a V1 extent of another length. -/
theorem Kept.read_mark_magic (kept : state.Kept) (holds : state.HoldsV2 offset) {epoch : BitVec 64}
    (mistaken : epoch.toNat % 2 ^ 32 = extentMagic) :
    (state.region.markForGc offset epoch).1.read offset ≠ state.region.read offset := by
  obtain ⟨payload, mark, found, told⟩ := holds.told
  have before := kept.read_eq found
  obtain ⟨_, leaked, accounted⟩ := kept
  obtain ⟨_, version, _, _, _⟩ := accounted.stored offset _ told
  have header := Accounted.header_fits accounted told
  have short := (accounted.sound offset _ told).short rfl
  have long := le_word_of_version version
  simp only [withFreeList] at header long
  have marked : (state.region.markForGc offset epoch).1 = { state.region with
      buffer := write state.region.buffer (offset + 16) (encode 8 epoch.toNat) } := by
    have live : (ExtentRecord.decoded ⟨.v2, payload.take (payload.length % 2 ^ 32), mark,
      true⟩).magic = extentMagic := rfl
    simp only [LargeObjectRegion.markForGc, accounted.decodes told]
    rw [if_neg (not_not_intro live), if_pos (by omega)]
  have kept : word (write state.region.buffer (offset + 16) (encode 8 epoch.toNat)) 8 offset =
      word state.region.buffer 8 offset := word_write_outside (.inl (by omega))
  have magic : word (write state.region.buffer (offset + 16) (encode 8 epoch.toNat)) 4 (offset + 16) =
      extentMagic := by
    rw [word_eq_mod (show 4 ≤ 8 by decide), word_write epoch.isLt]
    exact mistaken
  rw [before, marked, read_of_legacy]
  rotate_left
  · exact header
  · exact magic
  simp only [kept]
  -- Either the new length leaves the region, or more bytes are read than any payload has.
  split
  · exact (Option.some_ne_none _).symm
  · intro same
    have lengths := congrArg List.length (Option.some.inj same)
    rw [read_length] at lengths
    simp only [ExtentRecord.told] at lengths short
    omega

end Legacy

/-- In every region of careful users an allocated extent has the lifecycle, for a given epoch, exactly
when it was written in the V2 format and the low half of the epoch is not the magic. -/
theorem lifecycle_iff_modern (xxh64 : Xxh64) (size : ℕ) (small : size < 2 ^ 64)
    (ops : List RegionOp) (state : RegionState)
    (reached : Runs.run (carefulStep xxh64) (fresh size) ops = some state) (offset : ℕ)
    (allocated : offset ∈ state.region.allocated) (epoch : BitVec 64) :
    Lifecycle xxh64 state offset epoch ↔
      state.HoldsV2 offset ∧ epoch.toNat % 2 ^ 32 ≠ extentMagic := by
  have kept : state.Kept := run_invariant Kept.step (kept_fresh small) reached
  constructor
  · intro lifecycle
    obtain ⟨⟨format, payload, mark, live⟩, found, isLive⟩ := kept.mem_allocated.mp allocated
    obtain rfl : live = true := isLive
    cases format with
    | v1 =>
      obtain ⟨gone, _, unreadable⟩ := lifecycle.freed
      exact absurd (unreadable [] _ rfl gone) (kept.read_free_v1 found)
    | v2 =>
      have holds : state.HoldsV2 offset := by simp [HoldsV2, found]
      refine ⟨holds, fun mistaken => ?_⟩
      exact kept.read_mark_magic holds mistaken (lifecycle.marked offset allocated)
  · rintro ⟨holds, unmistakable⟩
    exact kept.lifecycle holds unmistakable

/-- A V2 extent beside a V1 extent. -/
theorem allocated_extent_has_lifecycle :
    ∃ state, Runs.run (carefulStep fun _ _ => 0) (fresh 128) [.allocate [1, 2, 3], .writeExtentV1 [4]] =
        some state ∧ Lifecycle (fun _ _ => 0) state 0 5 ∧ ¬ Lifecycle (fun _ _ => 0) state 40 5 := by
  refine ⟨_, rfl, ?_, ?_⟩
  · refine (lifecycle_iff_modern (fun _ _ => 0) 128 (by decide) [.allocate [1, 2, 3],
      .writeExtentV1 [4]] _ rfl 0 ?_ 5).mpr ?_ <;> decide +kernel
  · refine mt (lifecycle_iff_modern (fun _ _ => 0) 128 (by decide) [.allocate [1, 2, 3],
      .writeExtentV1 [4]] _ rfl 40 ?_ 5).mp ?_ <;> decide +kernel

/-- A V1 extent loses its data when it is marked, is not freed by the sweep, and reads as an empty payload
after it was freed. A V2 extent loses its data when the low half of its mark is the magic. -/
theorem v1_extent_lacks_lifecycle :
    let region := (LargeObjectRegion.new 64).writeExtentV1 [7]
    let modern := (LargeObjectRegion.new 64).allocate [7]
    region.1.read 0 = some [7] ∧ (region.1.markForGc 0 5).1.read 0 = none ∧
      0 ∈ ((region.1.markForGc 0 5).1.sweep 6 [0]).1.allocated ∧
      (region.1.free 0).2 = .ok () ∧ (region.1.free 0).1.read 0 = some [] ∧
      modern.1.read 0 = some [7] ∧
      (modern.1.markForGc 0 (BitVec.ofNat 64 extentMagic)).1.read 0 = none := by
  decide +kernel

end RegionState

end Rdmas.Soundness
