import Rdmas.Soundness.ExtentRecords

/-! # The extent region against a ledger

The ledger remembers, for every offset ever returned, the latest allocation made there. The region
agrees with it after every run: the allocated extents and the free list tile the used part of the
buffer, and each offset still holds the bytes its record calls for. Ranges are split but never merged,
so an offset once returned stays the start of a range and its header is never overwritten in part.
-/

namespace Rdmas.Soundness

open Rdmas.Model LittleEndian ByteMemory Tiling Function ExtentRecord

abbrev Ledger := ℕ → Option ExtentRecord

/-- The byte range of the extent at an offset. -/
def Ledger.range (ledger : Ledger) (offset : ℕ) : Range :=
  (offset, ((ledger offset).map size).getD 0)

/-- The last mark of the extent at an offset; a fresh extent is unmarked. -/
def Ledger.lastMark (ledger : Ledger) (offset : ℕ) : ℕ :=
  ((ledger offset).map fun record => record.mark.toNat).getD 0

/-- Calls on the region. The order of a sweep is the iteration order of the allocated set. -/
inductive RegionOp where
  | allocate (data : Bytes)
  | writeExtentV1 (data : Bytes)
  | writeExtentV2Checksummed (data : Bytes)
  | free (offset : ℕ)
  | markForGc (offset : ℕ) (epoch : BitVec 64)
  | sweep (minActiveEpoch : BitVec 64) (order : List ℕ)
deriving DecidableEq, Repr

structure RegionState where
  region : LargeObjectRegion
  ledger : Ledger

namespace ExtentRecord

/-- A live record whose mark lies strictly between zero and the oldest active epoch. -/
def due (record : ExtentRecord) (minActiveEpoch : BitVec 64) : Bool :=
  record.live && 0 < record.mark.toNat && record.mark.toNat < minActiveEpoch.toNat

/-- The record after a sweep. -/
def swept (record : ExtentRecord) (minActiveEpoch : BitVec 64) : ExtentRecord :=
  if record.due minActiveEpoch then { record with live := false } else record

@[simp] theorem mark_swept (record : ExtentRecord) (minActiveEpoch : BitVec 64) :
    (record.swept minActiveEpoch).mark = record.mark := by
  rw [swept]
  split <;> rfl

end ExtentRecord

namespace RegionState

/-- Enter a fresh record at the offset an allocation returned, if any. -/
def enter (ledger : Ledger) (returned : Option ℕ) (record : ExtentRecord) : Ledger :=
  match returned with
  | some offset => update ledger offset (some record)
  | none => ledger

/-- One call: the region as the source computes it, the ledger from what was asked and returned. -/
def apply (xxh64 : Xxh64) (state : RegionState) : RegionOp → RegionState
  | .allocate data =>
      let (region, returned) := state.region.allocate data
      ⟨region, enter state.ledger returned ⟨.v2, data, 0, true⟩⟩
  | .writeExtentV1 data =>
      let (region, returned) := state.region.writeExtentV1 data
      ⟨region, enter state.ledger returned ⟨.v1, data, 0, true⟩⟩
  | .writeExtentV2Checksummed data =>
      let (region, returned) := state.region.writeExtentV2Checksummed xxh64 data
      ⟨region, enter state.ledger returned ⟨.v2, data, 0, true⟩⟩
  | .free offset =>
      ⟨(state.region.free offset).1, update state.ledger offset
        ((state.ledger offset).map fun record => { record with live := false })⟩
  | .markForGc offset epoch =>
      ⟨(state.region.markForGc offset epoch).1, update state.ledger offset
        ((state.ledger offset).map fun record => { record with mark := epoch })⟩
  | .sweep minActiveEpoch order =>
      ⟨(state.region.sweep minActiveEpoch order).1,
        fun offset => (state.ledger offset).map fun record => record.swept minActiveEpoch⟩

/-- A fresh region and an empty ledger. -/
def fresh (size : ℕ) : RegionState := ⟨.new size, fun _ => none⟩

def run (xxh64 : Xxh64) (state : RegionState) (ops : List RegionOp) :
    RegionState := ops.foldl (apply xxh64) state

/-- An offset currently allocated in the V2 format. -/
def HoldsV2 (state : RegionState) (offset : ℕ) : Prop :=
  ((state.ledger offset).any fun record => record.live && record.format == .v2) = true

instance (state : RegionState) (offset : ℕ) : Decidable (state.HoldsV2 offset) :=
  inferInstanceAs (Decidable (_ = true))

/-- The calls considered: payloads below 4 GiB; `free` and `mark_for_gc` on allocated V2 extents, with
epochs whose low half is not the magic; sweeps over any enumeration of the allocated set. -/
def Allowed (state : RegionState) : RegionOp → Prop
  | .allocate data => data.length < 2 ^ 32
  | .writeExtentV1 data => data.length < 2 ^ 32
  | .writeExtentV2Checksummed data => data.length < 2 ^ 32
  | .free offset => state.HoldsV2 offset
  | .markForGc offset epoch => state.HoldsV2 offset ∧ epoch.toNat % 2 ^ 32 ≠ extentMagic
  | .sweep _ order => order.Nodup ∧ order.toFinset = state.region.allocated

instance (state : RegionState) : (op : RegionOp) → Decidable (state.Allowed op)
  | .allocate _ => inferInstanceAs (Decidable (_ < _))
  | .writeExtentV1 _ => inferInstanceAs (Decidable (_ < _))
  | .writeExtentV2Checksummed _ => inferInstanceAs (Decidable (_ < _))
  | .free _ => inferInstanceAs (Decidable (_ = true))
  | .markForGc _ _ => inferInstanceAs (Decidable (_ = true ∧ _ ≠ _))
  | .sweep _ order => inferInstanceAs (Decidable (order.Nodup ∧ _ = _))

/-- Every call of a sequence is allowed at its turn. -/
def Admissible (xxh64 : Xxh64) (state : RegionState) : List RegionOp → Prop
  | [] => True
  | op :: rest => state.Allowed op ∧ (state.apply xxh64 op).Admissible xxh64 rest

/-- The ranges of the allocated extents and of the free list. -/
def ranges (state : RegionState) : Multiset Range :=
  state.region.allocated.val.map state.ledger.range + (state.region.freeList : Multiset Range)

/-- The region agrees with the ledger. -/
structure Accounted (state : RegionState) : Prop where
  allocated : ∀ offset, offset ∈ state.region.allocated ↔
    ∃ record, state.ledger offset = some record ∧ record.live = true
  tiles : Tiles state.ranges 0 state.region.nextOffset
  fits : state.region.nextOffset ≤ state.region.size
  released : ∀ offset record, state.ledger offset = some record → record.live = false →
    ∃ length, (offset, length) ∈ state.region.freeList ∧ headerSize ≤ length
  sound : ∀ offset record, state.ledger offset = some record → record.Sound
  stored : ∀ offset record, state.ledger offset = some record →
    record.Stored state.region.buffer offset

variable {state : RegionState} {offset : ℕ} {record : ExtentRecord}

theorem HoldsV2.elim (holds : state.HoldsV2 offset) :
    ∃ payload mark, state.ledger offset = some ⟨.v2, payload, mark, true⟩ := by
  unfold HoldsV2 at holds
  cases found : state.ledger offset with
  | none => simp [found] at holds
  | some record =>
    obtain ⟨format, payload, mark, live⟩ := record
    simp only [found, Option.any_some, Bool.and_eq_true, beq_iff_eq] at holds
    obtain ⟨rfl, rfl⟩ := holds
    exact ⟨payload, mark, rfl⟩

theorem accounted_fresh (size : ℕ) : (fresh size).Accounted where
  allocated offset := by simp [fresh, LargeObjectRegion.new]
  tiles := tiles_zero 0
  fits := Nat.zero_le _
  released offset record found := nomatch found
  sound offset record found := nomatch found
  stored offset record found := nomatch found

/-- Every offset in the ledger starts a range that covers its footprint. -/
theorem Accounted.range_of_record (accounted : state.Accounted) (found : state.ledger offset = some record) :
    ∃ length, (offset, length) ∈ state.ranges ∧ record.footprint ≤ length := by
  cases live : record.live with
  | true =>
    have member := (accounted.allocated offset).mpr ⟨record, found, live⟩
    refine ⟨record.size, Multiset.mem_add.mpr (.inl (Multiset.mem_map.mpr ⟨offset, member, ?_⟩)), ?_⟩
    · simp [Ledger.range, found]
    · rw [record.footprint_of_live live]
  | false =>
    obtain ⟨length, member, room⟩ := accounted.released offset record found live
    refine ⟨length, Multiset.mem_add.mpr (.inr member), ?_⟩
    cases format : record.format with
    | v1 => simp [((accounted.sound offset record found).legacy format).2] at live
    | v2 => simpa [footprint, format, live] using room

/-- The footprint of a record lies inside the used part of the buffer. -/
theorem Accounted.footprint_fits (accounted : state.Accounted) (found : state.ledger offset = some record) :
    offset + record.footprint ≤ state.region.nextOffset := by
  obtain ⟨length, member, room⟩ := accounted.range_of_record found
  have header := record.header_le_footprint
  have inside := (accounted.tiles.bounds member (by simp only; omega)).2
  simp only at inside
  omega

section Update

variable {ledger : Ledger} {other : ℕ} {held : ExtentRecord}

/-- The records of a ledger after one of them was replaced. -/
theorem update_eq_some : update ledger offset (some record) other = some held ↔
    (other = offset ∧ held = record) ∨ (other ≠ offset ∧ ledger other = some held) := by
  rw [update_apply]
  split
  · next same => simp [same, eq_comm]
  · next differs => simp [differs]

/-- Which offsets hold a live record after one was replaced. -/
private theorem live_update :
    (∃ held, update ledger offset (some record) other = some held ∧ held.live = true) ↔
      (other = offset ∧ record.live = true) ∨
        (other ≠ offset ∧ ∃ held, ledger other = some held ∧ held.live = true) := by
  simp only [update_eq_some, or_and_right, exists_or, and_assoc, exists_and_left, exists_eq_left]

end Update

/-- A new record at the start of a range, and a change of bytes within that range, leave the records
of the other ranges in place. -/
private theorem stored_update {ledger : Ledger} {rest : Multiset Range} {length lower upper : ℕ}
    {memory next : Memory} (tiles : Tiles ((offset, length) ::ₘ rest) lower upper)
    (covered : ∀ other held, other ≠ offset → ledger other = some held →
      ∃ room, (other, room) ∈ rest ∧ held.footprint ≤ room)
    (outside : ∀ query, ¬ Contains (offset, length) query → next query = memory query)
    (stored : ∀ other held, ledger other = some held → held.Stored memory other)
    (new : record.Stored next offset) :
    ∀ other held, update ledger offset (some record) other = some held →
      held.Stored next other := by
  intro other held found
  rcases update_eq_some.mp found with ⟨rfl, rfl⟩ | ⟨differs, found⟩
  · exact new
  · obtain ⟨room, member, enough⟩ := covered other held differs found
    apply (stored other held found).congr
    intro query inside
    refine outside query fun hit => tiles.packs.apart member query hit ?_
    simp only [Contains] at inside ⊢
    omega

private theorem sound_update {ledger : Ledger} (sound : ∀ other held, ledger other = some held → held.Sound)
    (new : record.Sound) :
    ∀ other held, update ledger offset (some record) other = some held → held.Sound := by
  intro other held found
  rcases update_eq_some.mp found with ⟨_, rfl⟩ | ⟨_, found⟩
  · exact new
  · exact sound other held found

/-- Ranges other than the one at an offset do not see a change of its record. -/
private theorem map_range_update {offsets : Multiset ℕ} (absent : offset ∉ offsets) (ledger : Ledger)
    (entry : Option ExtentRecord) :
    offsets.map (Ledger.range (update ledger offset entry)) =
      offsets.map ledger.range := by
  apply Multiset.map_congr rfl
  intro other member
  have differs : other ≠ offset := fun same => absent (same ▸ member)
  rw [Ledger.range, update_of_ne differs, Ledger.range]

section Changes

namespace Accounted

variable (accounted : state.Accounted)
include accounted

/-- A live record enters at an offset not allocated so far, at the front of a range that was set aside.
The new free list covers what the record does not take of that range. -/
theorem accept {region : LargeObjectRegion} {reserved : ℕ}
    {others : List Range} (vacant : offset ∉ state.region.allocated) (live : record.live = true)
    (sound : record.Sound) (allocated : region.allocated = insert offset state.region.allocated)
    (fits : region.nextOffset ≤ region.size)
    (tiles : Tiles ((offset, reserved) ::ₘ (state.region.allocated.val.map state.ledger.range +
      (others : Multiset Range))) 0 region.nextOffset)
    (covers : ∀ address, cover ((offset, record.size) ::ₘ (region.freeList : Multiset Range)) address =
      cover ((offset, reserved) ::ₘ (others : Multiset Range)) address)
    (set : ∀ other length, other ≠ offset → (other, length) ∈ state.region.freeList →
      (other, length) ∈ others) (kept : ∀ range ∈ others, range ∈ region.freeList)
    (outside : ∀ query, ¬ Contains (offset, reserved) query →
      region.buffer query = state.region.buffer query) (stored : record.Stored region.buffer offset) :
    Accounted ⟨region, update state.ledger offset (some record)⟩ where
  allocated other := by
    rw [allocated, Finset.mem_insert, accounted.allocated other, live_update, live]
    tauto
  tiles := by
    have values : region.allocated.val = offset ::ₘ state.region.allocated.val := by
      rw [allocated, Finset.insert_val_of_notMem vacant]
    have own : Ledger.range (update state.ledger offset (some record)) offset =
        (offset, record.size) := by
      simp [Ledger.range]
    intro address
    have once := tiles address
    rw [← Multiset.add_cons, cover_add, ← covers] at once
    rw [ranges, values, Multiset.map_cons, own, map_range_update vacant, Multiset.cons_add,
      ← Multiset.add_cons, cover_add]
    exact once
  fits := fits
  released other held found dead := by
    rcases update_eq_some.mp found with ⟨_, rfl⟩ | ⟨differs, found⟩
    · rw [live] at dead
      contradiction
    · obtain ⟨length, member, room⟩ := accounted.released other held found dead
      exact ⟨length, kept _ (set other length differs member), room⟩
  sound := sound_update accounted.sound sound
  stored := by
    refine stored_update tiles ?_ outside accounted.stored stored
    intro other held differs found
    obtain ⟨room, member, enough⟩ := accounted.range_of_record found
    refine ⟨room, ?_, enough⟩
    rcases Multiset.mem_add.mp member with inUse | free
    · exact Multiset.mem_add.mpr (.inl inUse)
    · exact Multiset.mem_add.mpr (.inr (set other room differs free))

/-- The range of a live record, taken out of all ranges. -/
theorem ranges_eq
    (found : state.ledger offset = some record) (live : record.live = true) :
    state.ranges = (offset, record.size) ::ₘ
      ((state.region.allocated.erase offset).val.map state.ledger.range +
        (state.region.freeList : Multiset Range)) := by
  have member : offset ∈ state.region.allocated := (accounted.allocated offset).mpr ⟨_, found, live⟩
  have values : state.region.allocated.val = offset ::ₘ (state.region.allocated.erase offset).val := by
    rw [Finset.erase_val, Multiset.cons_erase member]
  have own : state.ledger.range offset = (offset, record.size) := by simp [Ledger.range, found]
  rw [ranges, values, Multiset.map_cons, own, Multiset.cons_add]

/-- The other records are covered by the other ranges. -/
theorem covered
    (found : state.ledger offset = some record) (live : record.live = true) {other : ℕ}
    {held : ExtentRecord} (differs : other ≠ offset) (otherFound : state.ledger other = some held) :
    ∃ room, (other, room) ∈ (state.region.allocated.erase offset).val.map state.ledger.range +
      (state.region.freeList : Multiset Range) ∧ held.footprint ≤ room := by
  obtain ⟨room, member, enough⟩ := accounted.range_of_record otherFound
  rw [accounted.ranges_eq found live] at member
  refine ⟨room, (Multiset.mem_cons.mp member).resolve_left ?_, enough⟩
  intro same
  exact differs (congrArg Prod.fst same)

theorem header_fits
    (found : state.ledger offset = some record) : offset + 24 ≤ state.region.size := by
  have room := accounted.footprint_fits found
  have header := record.header_le_footprint
  have fits := accounted.fits
  omega

theorem decodes (found : state.ledger offset = some record) :
    state.region.readDecodedHeader offset = some record.decoded :=
  readDecodedHeader_of_stored (accounted.stored offset record found)
    (accounted.sound offset record found) ((accounted.footprint_fits found).trans accounted.fits)

/-- A record reads as its payload while it is allocated, and as nothing afterwards. -/
theorem read_eq (found : state.ledger offset = some record) :
    state.region.read offset = if record.live then some record.payload else none := by
  have stored := accounted.stored offset record found
  have sound := accounted.sound offset record found
  have inside := (accounted.footprint_fits found).trans accounted.fits
  split
  · next live =>
      rw [record.footprint_of_live live] at inside
      exact read_of_live stored sound live inside
  · next dead => exact read_of_released stored sound (by simpa using dead) inside

/-- Releasing a live V2 extent moves its range to the free list. -/
theorem release {payload : Bytes} {mark : BitVec 64}
    (found : state.ledger offset = some ⟨.v2, payload, mark, true⟩) :
    Accounted ⟨state.region.release offset (decoded ⟨.v2, payload, mark, true⟩),
      update state.ledger offset (some ⟨.v2, payload, mark, false⟩)⟩ := by
  have header := accounted.header_fits found
  have room := le_extentTotal payload.length
  have tiles := accounted.tiles
  rw [accounted.ranges_eq found rfl] at tiles
  have absent : offset ∉ (state.region.allocated.erase offset).val :=
    Finset.notMem_erase offset state.region.allocated
  simp only [LargeObjectRegion.release, LargeObjectRegion.zeroMagic,
    if_pos (show offset + 4 ≤ state.region.size by omega)]
  constructor
  case allocated =>
    intro other
    rw [Finset.mem_erase, accounted.allocated other, live_update]
    simp
  case tiles =>
    simp only [ranges, map_range_update absent, ← Multiset.coe_add]
    rw [← add_assoc, Multiset.add_comm, Multiset.coe_singleton, Multiset.singleton_add]
    exact tiles
  case fits => exact accounted.fits
  case released =>
    intro other held otherFound dead
    simp only [List.mem_append, List.mem_singleton]
    rcases update_eq_some.mp otherFound with ⟨rfl, rfl⟩ | ⟨_, otherFound⟩
    · exact ⟨extentTotal payload.length, .inr rfl, by omega⟩
    · obtain ⟨length, member, enough⟩ := accounted.released other held otherFound dead
      exact ⟨length, .inl member, enough⟩
  case sound =>
    have sound := accounted.sound _ _ found
    exact sound_update accounted.sound ⟨sound.short, sound.unmistakable, nofun⟩
  case stored =>
    refine stored_update tiles (fun _ _ => accounted.covered found rfl) ?_ accounted.stored
      (accounted.stored _ _ found).zeroMagic
    intro query outside
    simp only [Contains, size, headerSize] at outside room
    exact write_outside (by simp only [List.length_cons, List.length_nil]; omega)

/-- Marking a live V2 extent changes its mark only. -/
theorem mark {payload : Bytes} {mark : BitVec 64}
    (found : state.ledger offset = some ⟨.v2, payload, mark, true⟩) {epoch : BitVec 64}
    (unmistakable : epoch.toNat % 2 ^ 32 ≠ extentMagic) :
    Accounted ⟨(state.region.markForGc offset epoch).1,
      update state.ledger offset (some ⟨.v2, payload, epoch, true⟩)⟩ := by
  have header := accounted.header_fits found
  have room := le_extentTotal payload.length
  have tiles := accounted.tiles
  rw [accounted.ranges_eq found rfl] at tiles
  have magic : (decoded ⟨.v2, payload, mark, true⟩).magic = extentMagic := rfl
  simp only [LargeObjectRegion.markForGc, accounted.decodes found]
  rw [if_neg (not_not_intro magic), if_pos (by omega)]
  constructor
  case allocated =>
    intro other
    rw [accounted.allocated other, live_update]
    constructor
    · intro before
      exact (eq_or_ne other offset).imp (fun same => ⟨same, rfl⟩) fun differs => ⟨differs, before⟩
    · rintro (⟨rfl, _⟩ | ⟨_, before⟩)
      · exact ⟨_, found, rfl⟩
      · exact before
  case tiles =>
    have sameRange : Ledger.range (update state.ledger offset
        (some ⟨.v2, payload, epoch, true⟩)) = state.ledger.range := by
      funext other
      rcases eq_or_ne other offset with rfl | differs
      · simp [Ledger.range, found, size]
      · simp [Ledger.range, differs]
    simp only [ranges, sameRange]
    exact accounted.tiles
  case fits => exact accounted.fits
  case released =>
    intro other held otherFound dead
    rcases update_eq_some.mp otherFound with ⟨_, rfl⟩ | ⟨_, otherFound⟩
    · cases dead
    · exact accounted.released other held otherFound dead
  case sound =>
    refine sound_update accounted.sound ⟨(accounted.sound _ _ found).short, unmistakable, ?_⟩
    intro legacy
    cases legacy
  case stored =>
    refine stored_update tiles (fun _ _ => accounted.covered found rfl) ?_ accounted.stored
      ((accounted.stored _ _ found).mark epoch)
    intro query outside
    simp only [Contains, size, headerSize] at outside room
    exact write_outside (by rw [encode_length]; omega)

end Accounted

end Changes

section Calls

/-- A fresh unmarked V2 record. -/
theorem sound_v2 {data : Bytes} (short : data.length < 2 ^ 32) :
    Sound ⟨.v2, data, 0, true⟩ :=
  ⟨fun _ => short, show (0 : BitVec 64).toNat % 2 ^ 32 ≠ extentMagic by decide, nofun⟩

/-- A fresh V1 record, of any length. -/
theorem sound_v1 (data : Bytes) : Sound ⟨.v1, data, 0, true⟩ where
  short modern := nomatch modern
  unmistakable := show (0 : BitVec 64).toNat % 2 ^ 32 ≠ extentMagic by decide
  legacy _ := ⟨rfl, rfl⟩

/-- A due record is in the V2 format: V1 extents are never marked. -/
theorem format_of_due {minActiveEpoch : BitVec 64} (sound : record.Sound)
    (due : record.due minActiveEpoch = true) :
    ∃ payload mark, record = ⟨.v2, payload, mark, true⟩ := by
  obtain ⟨format, payload, mark, live⟩ := record
  simp only [ExtentRecord.due, Bool.and_eq_true, decide_eq_true_eq] at due
  obtain ⟨⟨rfl, marked⟩, _⟩ := due
  cases format with
  | v1 =>
    obtain ⟨rfl, _⟩ := sound.legacy rfl
    exact absurd marked (by decide)
  | v2 => exact ⟨payload, mark, rfl⟩

/-- The ledger after some of the offsets were swept. -/
def sweptLedger (ledger : Ledger) (minActiveEpoch : BitVec 64) (order : List ℕ) : Ledger :=
  fun offset =>
    if offset ∈ order then (ledger offset).map fun record => record.swept minActiveEpoch
    else ledger offset

/-- Sweeping one offset first and the rest afterwards is sweeping them all. -/
theorem sweptLedger_cons (ledger : Ledger) (minActiveEpoch : BitVec 64) {order : List ℕ}
    (apart : offset ∉ order) (found : ledger offset = some record) :
    sweptLedger (update ledger offset (some (record.swept minActiveEpoch))) minActiveEpoch
      order = sweptLedger ledger minActiveEpoch (offset :: order) := by
  funext other
  rcases eq_or_ne other offset with rfl | differs
  · simp [sweptLedger, apart, found]
  · simp [sweptLedger, differs]

namespace Accounted

variable (accounted : state.Accounted)
include accounted

theorem vacant_next :
    state.region.nextOffset ∉ state.region.allocated := by
  intro member
  obtain ⟨held, found, _⟩ := (accounted.allocated _).mp member
  have inside := accounted.footprint_fits found
  have header := held.header_le_footprint
  omega

/-- A range of the free list does not start at an allocated extent. -/
theorem vacant_free {length : ℕ} (positive : 0 < length)
    (listed : (offset, length) ∈ state.region.freeList) : offset ∉ state.region.allocated := by
  intro member
  obtain ⟨held, found, _⟩ := (accounted.allocated _).mp member
  obtain ⟨removed, free⟩ := Multiset.exists_cons_of_mem (Multiset.mem_coe.mpr listed)
  have heldRange : (offset, held.size) ∈ state.region.allocated.val.map state.ledger.range :=
    Multiset.mem_map.mpr ⟨offset, member, by simp [Ledger.range, found]⟩
  have tiles := accounted.tiles
  rw [ranges, free, Multiset.add_cons] at tiles
  have heldPositive := held.le_size
  exact tiles.packs.apart (Multiset.mem_add.mpr (.inl heldRange)) offset ⟨le_rfl, by simp only; omega⟩
    ⟨le_rfl, by simp only; omega⟩

/-- A record entered in a range reserved at the bump pointer. -/
theorem enterNext {buffer : Memory} (live : record.live = true)
    (sound : record.Sound) {reserved : ℕ} {freeList : List Range}
    (room : state.region.nextOffset + reserved ≤ state.region.size)
    (covers : ∀ address, cover ((state.region.nextOffset, record.size) ::ₘ
        (freeList : Multiset Range)) address =
      cover ((state.region.nextOffset, reserved) ::ₘ (state.region.freeList : Multiset Range)) address)
    (kept : ∀ range ∈ state.region.freeList, range ∈ freeList)
    (outside : ∀ query, ¬ Contains (state.region.nextOffset, reserved) query →
      buffer query = state.region.buffer query) (stored : record.Stored buffer state.region.nextOffset) :
    Accounted ⟨{ state.region with
        buffer
        freeList
        nextOffset := state.region.nextOffset + reserved
        allocated := insert state.region.nextOffset state.region.allocated },
      update state.ledger state.region.nextOffset (some record)⟩ :=
  accounted.accept accounted.vacant_next live sound rfl room
    (accounted.tiles.push (Nat.zero_le _) reserved) covers (fun _ _ _ => id) kept outside stored

/-- A record entered at the bump pointer. -/
theorem bump {buffer : Memory} (live : record.live = true)
    (sound : record.Sound) (room : state.region.nextOffset + record.size ≤ state.region.size)
    (outside : ∀ query, ¬ Contains (state.region.nextOffset, record.size) query →
      buffer query = state.region.buffer query) (stored : record.Stored buffer state.region.nextOffset) :
    Accounted ⟨{ state.region with
        buffer
        nextOffset := state.region.nextOffset + record.size
        allocated := insert state.region.nextOffset state.region.allocated },
      update state.ledger state.region.nextOffset (some record)⟩ :=
  accounted.enterNext live sound room (fun _ => rfl) (fun _ => id) outside stored

/-- A record entered at the front of a free range. -/
theorem enterFree {buffer : Memory} (live : record.live = true)
    (sound : record.Sound) {length : ℕ} (positive : 0 < length) {removed freeList : List Range}
    (chosen : state.region.freeList.Perm ((offset, length) :: removed))
    (covers : ∀ address, cover ((offset, record.size) ::ₘ (freeList : Multiset Range)) address =
      cover ((offset, length) ::ₘ (removed : Multiset Range)) address)
    (kept : ∀ range ∈ removed, range ∈ freeList)
    (outside : ∀ query, ¬ Contains (offset, length) query → buffer query = state.region.buffer query)
    (stored : record.Stored buffer offset) :
    Accounted ⟨{ state.region with
        buffer
        freeList
        allocated := insert offset state.region.allocated },
      update state.ledger offset (some record)⟩ := by
  have vacant := accounted.vacant_free positive (chosen.mem_iff.mpr List.mem_cons_self)
  have tiles := accounted.tiles
  rw [ranges, Multiset.coe_eq_coe.mpr chosen, ← Multiset.cons_coe, Multiset.add_cons] at tiles
  refine accounted.accept vacant live sound rfl accounted.fits tiles covers ?_ kept outside stored
  intro other otherLength differs member
  have listed := chosen.mem_iff.mp member
  simpa [differs] using listed

/-- A record entered at the front of a free range, with the remainder put back. -/
theorem reuse {buffer : Memory} (live : record.live = true)
    (sound : record.Sound) {length : ℕ} {removed : List Range}
    (chosen : state.region.freeList.Perm ((offset, length) :: removed)) (room : record.size ≤ length)
    (outside : ∀ query, ¬ Contains (offset, record.size) query →
      buffer query = state.region.buffer query) (stored : record.Stored buffer offset) :
    Accounted ⟨{ state.region with
        buffer
        freeList := if length > record.size then
          removed ++ [(offset + record.size, length - record.size)] else removed
        allocated := insert offset state.region.allocated },
      update state.ledger offset (some record)⟩ := by
  have positive : 24 ≤ record.size := (Nat.le_add_right _ _).trans record.le_size
  have inside : ∀ query, ¬ Contains (offset, length) query → ¬ Contains (offset, record.size) query := by
    simp only [Contains]
    omega
  refine accounted.enterFree live sound (by omega) chosen ?_ ?_ (fun query away =>
    outside query (inside query away)) stored
  · intro address
    split
    · next larger =>
        rw [show length = record.size + (length - record.size) by omega, cover_split,
          Nat.add_sub_cancel_left, ← Multiset.coe_add, Multiset.coe_singleton, Multiset.add_comm,
          Multiset.singleton_add]
    · next exact => rw [show length = record.size by omega]
  · intro range member
    split
    · exact List.mem_append_left _ member
    · exact member

/-- Allocation, from the free list or from the bump pointer. -/
theorem allocate {data : Bytes} (short : data.length < 2 ^ 32) :
    Accounted ⟨(state.region.allocate data).1,
      enter state.ledger (state.region.allocate data).2 ⟨.v2, data, 0, true⟩⟩ := by
  have outside := fun (offset : ℕ) => putExtent_outside state.region offset data 0
  have stored := fun (offset : ℕ) => stored_putExtent state.region offset 0 short
  simp only [LargeObjectRegion.allocate]
  split
  · next idx chosen =>
      obtain ⟨perm, large⟩ := firstFit_spec chosen
      exact accounted.reuse rfl (sound_v2 short) perm large (outside _) (stored _)
  · split
    · exact accounted
    · next room =>
        exact accounted.bump rfl (sound_v2 short) (Nat.le_of_not_lt room) (outside _) (stored _)

theorem writeExtentV1 {data : Bytes} (short : data.length < 2 ^ 64) :
    Accounted ⟨(state.region.writeExtentV1 data).1,
      enter state.ledger (state.region.writeExtentV1 data).2 ⟨.v1, data, 0, true⟩⟩ := by
  by_cases room : state.region.nextOffset + (24 + data.length) > state.region.size
  · simp only [LargeObjectRegion.writeExtentV1, if_pos room]
    exact accounted
  · have outside := writeExtentV1_outside state.region data
    have stored := stored_writeExtentV1 short room
    simp only [LargeObjectRegion.writeExtentV1, if_neg room] at outside stored ⊢
    exact accounted.bump rfl (sound_v1 data) (Nat.le_of_not_lt room) outside stored

theorem writeExtentV2Checksummed {data : Bytes} (short : data.length < 2 ^ 32) (xxh64 : Xxh64) :
    Accounted ⟨(state.region.writeExtentV2Checksummed xxh64 data).1,
      enter state.ledger (state.region.writeExtentV2Checksummed xxh64 data).2
        ⟨.v2, data, 0, true⟩⟩ := by
  simp only [LargeObjectRegion.writeExtentV2Checksummed]
  split
  · exact accounted
  · next room =>
      exact accounted.bump rfl (sound_v2 short) (Nat.le_of_not_lt room)
        (putExtent_outside state.region _ data _)
        (stored_putExtent state.region _ _ short)

theorem free_eq (found : state.ledger offset = some record) (live : record.live = true) :
    state.region.free offset = (state.region.release offset record.decoded, .ok ()) := by
  have member := (accounted.allocated offset).mpr ⟨_, found, live⟩
  have magic := (decoded_of_live live).1
  simp only [LargeObjectRegion.free, accounted.decodes found, if_neg (not_not_intro member),
    if_neg (not_not_intro magic)]

/-- The sweep's test of an allocated extent is the one of its record. -/
theorem sweepable_eq
    (found : state.ledger offset = some record) (live : record.live = true) (minActiveEpoch : BitVec 64) :
    state.region.sweepable minActiveEpoch offset =
      if record.due minActiveEpoch then some record.decoded else none := by
  have sound := accounted.sound offset record found
  rw [LargeObjectRegion.sweepable, accounted.decodes found]
  obtain ⟨format, payload, mark, state⟩ := record
  subst live
  cases format with
  | v1 =>
    obtain ⟨rfl, _⟩ := sound.legacy rfl
    rfl
  | v2 => simp [Option.filter_some, decoded, due]

/-- Offsets outside the enumeration are not live, so a sweep leaves their records alone. -/
theorem swept_eq_sweptLedger (minActiveEpoch : BitVec 64)
    {order : List ℕ} (enumerates : order.toFinset = state.region.allocated) :
    (fun offset => (state.ledger offset).map fun record => record.swept minActiveEpoch) =
      sweptLedger state.ledger minActiveEpoch order := by
  funext offset
  rw [sweptLedger]
  split
  · rfl
  · next absent =>
      cases found : state.ledger offset with
      | none => rfl
      | some record =>
        have dead : record.live = false := by
          rw [← List.mem_toFinset, enumerates, accounted.allocated] at absent
          simpa [found] using absent
        simp [swept, due, dead]

/-- A sweep over any distinct allocated offsets releases the due ones and counts them. -/
theorem sweep (minActiveEpoch : BitVec 64) {order : List ℕ}
    (distinct : order.Nodup) (allocated : ∀ offset ∈ order, offset ∈ state.region.allocated) :
    Accounted ⟨(state.region.sweep minActiveEpoch order).1,
      sweptLedger state.ledger minActiveEpoch order⟩ ∧
    (state.region.sweep minActiveEpoch order).2 = order.countP fun offset =>
      (state.ledger offset).any fun record => record.due minActiveEpoch := by
  induction order generalizing state with
  | nil => exact ⟨accounted, rfl⟩
  | cons offset order ih =>
    obtain ⟨apart, distinct⟩ := List.nodup_cons.mp distinct
    obtain ⟨record, found, live⟩ :=
      (accounted.allocated offset).mp (allocated offset List.mem_cons_self)
    have rest : ∀ other ∈ order, other ∈ state.region.allocated :=
      fun other member => allocated other (List.mem_cons_of_mem _ member)
    rw [← sweptLedger_cons state.ledger minActiveEpoch apart found, List.countP_cons]
    simp only [LargeObjectRegion.sweep, accounted.sweepable_eq found live, found, Option.any_some]
    -- Sweeping one offset does not change what is due among the others.
    have others : ∀ entry, (order.countP fun other =>
        (update state.ledger offset entry other).any fun held => held.due minActiveEpoch) =
        order.countP fun other => (state.ledger other).any fun held => held.due minActiveEpoch := by
      intro entry
      apply List.countP_congr
      intro other member
      have differs : other ≠ offset := fun same => apart (same ▸ member)
      rw [update_of_ne differs]
    cases due : record.due minActiveEpoch with
    | true =>
      obtain ⟨payload, mark, rfl⟩ := format_of_due (accounted.sound _ _ found) due
      have remaining : ∀ other ∈ order, other ∈ (state.region.release offset
          (decoded ⟨.v2, payload, mark, true⟩)).allocated := by
        intro other member
        have differs : other ≠ offset := fun same => apart (same ▸ member)
        simp only [LargeObjectRegion.release, LargeObjectRegion.zeroMagic]
        split <;> exact Finset.mem_erase.mpr ⟨differs, rest other member⟩
      obtain ⟨kept, count⟩ := ih (accounted.release found) distinct remaining
      rw [others] at count
      simp only [swept, due, if_true]
      exact ⟨kept, congrArg (· + 1) count⟩
    | false =>
      have same : update state.ledger offset (some record) = state.ledger := by
        rw [← found, update_eq_self]
      simp only [swept, due, Bool.false_eq_true, if_false, same, Nat.add_zero]
      exact ih accounted distinct rest

end Accounted

/-- What an admissible call preserves. -/
theorem Accounted.apply (xxh64 : Xxh64) (accounted : state.Accounted)
    {op : RegionOp} (allowed : state.Allowed op) : (state.apply xxh64 op).Accounted := by
  cases op with
  | allocate data => exact accounted.allocate allowed
  | writeExtentV1 data => exact accounted.writeExtentV1 (lt_trans allowed (by decide))
  | writeExtentV2Checksummed data => exact accounted.writeExtentV2Checksummed allowed xxh64
  | free offset =>
    obtain ⟨payload, mark, found⟩ := HoldsV2.elim allowed
    simp only [RegionState.apply, accounted.free_eq found rfl, found, Option.map_some]
    exact accounted.release found
  | markForGc offset epoch =>
    obtain ⟨payload, mark, found⟩ := HoldsV2.elim allowed.1
    simp only [RegionState.apply, found, Option.map_some]
    exact accounted.mark found allowed.2
  | sweep minActiveEpoch order =>
    obtain ⟨distinct, enumerates⟩ := allowed
    simp only [RegionState.apply, accounted.swept_eq_sweptLedger minActiveEpoch enumerates]
    refine (accounted.sweep minActiveEpoch distinct fun offset member => ?_).1
    rwa [← enumerates, List.mem_toFinset]

/-- The region agrees with the ledger after every admissible run. -/
theorem Accounted.run (xxh64 : Xxh64) (accounted : state.Accounted)
    {ops : List RegionOp} (admissible : state.Admissible xxh64 ops) :
    (state.run xxh64 ops).Accounted := by
  induction ops generalizing state with
  | nil => exact accounted
  | cons op rest ih => exact ih (accounted.apply xxh64 admissible.1) admissible.2

end Calls

section Results

/-- Any listing of the allocated set gives the same ranges. -/
theorem ranges_of_listing {order : List ℕ} (distinct : order.Nodup)
    (enumerates : order.toFinset = state.region.allocated) :
    state.ranges = (order.map state.ledger.range ++ state.region.freeList : List Range) := by
  rw [ranges, ← enumerates, List.toFinset_val, List.dedup_eq_self.mpr distinct, Multiset.map_coe,
    Multiset.coe_add]

/-- A sweep frees exactly the allocated extents whose last mark is due, in whatever order it visits
them. -/
theorem Accounted.sweep_exact (accounted : state.Accounted) (minActiveEpoch : BitVec 64)
    {order : List ℕ} (distinct : order.Nodup) (enumerates : order.toFinset = state.region.allocated) :
    let due := state.region.allocated.filter fun offset =>
      0 < state.ledger.lastMark offset ∧ state.ledger.lastMark offset < minActiveEpoch.toNat
    (state.region.sweep minActiveEpoch order).1.allocated = state.region.allocated \ due ∧
    (state.region.sweep minActiveEpoch order).2 = due.card := by
  intro due
  have members : ∀ offset, offset ∈ order ↔ offset ∈ state.region.allocated := by
    intro offset
    rw [← enumerates, List.mem_toFinset]
  obtain ⟨swept, count⟩ := accounted.sweep minActiveEpoch distinct fun offset => (members offset).mp
  have dueRecord : ∀ offset ∈ state.region.allocated,
      (((state.ledger offset).any fun record => record.due minActiveEpoch) = true ↔
        0 < state.ledger.lastMark offset ∧
          state.ledger.lastMark offset < minActiveEpoch.toNat) := by
    intro offset member
    obtain ⟨record, found, live⟩ := (accounted.allocated offset).mp member
    simp [found, ExtentRecord.due, live, Ledger.lastMark]
  constructor
  · ext offset
    rw [swept.allocated offset, Finset.mem_sdiff, Finset.mem_filter]
    by_cases member : offset ∈ state.region.allocated
    · obtain ⟨record, found, live⟩ := (accounted.allocated offset).mp member
      rw [← dueRecord offset member, found]
      simp only [sweptLedger, if_pos ((members offset).mpr member), found, ExtentRecord.swept]
      cases dueNow : record.due minActiveEpoch <;> simp [dueNow, live, member]
    · have unswept : offset ∉ order := fun listed => member ((members offset).mp listed)
      simp only [sweptLedger, if_neg unswept, ← accounted.allocated offset, member, false_and]
  · rw [count, List.countP_eq_length_filter, ← List.toFinset_card_of_nodup (distinct.filter _),
      List.toFinset_filter, enumerates]
    exact congrArg Finset.card (Finset.filter_congr dueRecord)

/-- The region after every run from a fresh one: the extents allocated are those that the calls have
returned and not released since; they and the free list tile the used part of the buffer; every offset
ever returned reads as its latest payload while allocated, and as nothing after its release; and a sweep
frees exactly the due extents. -/
theorem region_agrees_with_ledger (xxh64 : Xxh64) (size : ℕ)
    (ops : List RegionOp) (admissible : (fresh size).Admissible xxh64 ops) :
    let state := (fresh size).run xxh64 ops
    (∀ offset, offset ∈ state.region.allocated ↔
      ∃ record, state.ledger offset = some record ∧ record.live = true) ∧
    state.region.nextOffset ≤ state.region.size ∧
    (∀ offset record, state.ledger offset = some record →
      (offset ∈ state.region.allocated → state.region.read offset = some record.payload) ∧
      (offset ∉ state.region.allocated → record.format = .v2 → state.region.read offset = none)) ∧
    ∀ order : List ℕ, order.Nodup → order.toFinset = state.region.allocated →
      let ranges := order.map state.ledger.range ++ state.region.freeList
      ranges.Pairwise Apart ∧
      (∀ address, address < state.region.nextOffset ↔
        ∃ range ∈ ranges, Contains range address) ∧
      ∀ minActiveEpoch : BitVec 64,
        let due := state.region.allocated.filter fun offset =>
          0 < state.ledger.lastMark offset ∧ state.ledger.lastMark offset < minActiveEpoch.toNat
        (state.region.sweep minActiveEpoch order).1.allocated = state.region.allocated \ due ∧
        (state.region.sweep minActiveEpoch order).2 = due.card := by
  intro state
  have accounted : state.Accounted := (accounted_fresh size).run xxh64 admissible
  refine ⟨accounted.allocated, accounted.fits, ?_, ?_⟩
  · intro offset record found
    rw [accounted.allocated, accounted.read_eq found]
    simp +contextual [found]
  · intro order distinct enumerates ranges
    have tiles := accounted.tiles
    rw [ranges_of_listing distinct enumerates] at tiles
    refine ⟨tiles.pairwise, ?_, fun minActiveEpoch =>
      accounted.sweep_exact minActiveEpoch distinct enumerates⟩
    intro address
    exact ⟨fun below => (tiles.contains_iff address).mp ⟨Nat.zero_le _, below⟩,
      fun covered => ((tiles.contains_iff address).mpr covered).2⟩

/-- A marked extent is swept and its range reused, before a V1 extent that stays and a checksummed one
that is freed; the constant is the seed-zero hash of the one-byte string `a`. -/
theorem reused_extent_reads_back : let xxh64 : Xxh64 := fun _ _ => 0xD24EC4F1A98C6E5B
    let ops : List RegionOp := [.allocate [1, 2, 3], .writeExtentV1 [4], .markForGc 0 5,
      .sweep 6 [40, 0], .writeExtentV2Checksummed [0x61], .allocate [7], .free 65]
    let final := (fresh 128).run xxh64 ops
    final.region.allocated = {0, 40} ∧ final.region.read 0 = some [7] ∧
      final.region.read 40 = some [4] ∧ final.region.read 65 = none := by
  intro xxh64 ops final
  have admissible : (fresh 128).Admissible xxh64 ops := by
    refine ⟨?_, ?_, ?_, ?_, ?_, ?_, ?_, trivial⟩ <;> decide +kernel
  obtain ⟨_, _, reads, _⟩ := region_agrees_with_ledger xxh64 128 ops admissible
  have first : final.ledger 0 = some ⟨.v2, [7], 0, true⟩ := by decide +kernel
  have second : final.ledger 40 = some ⟨.v1, [4], 0, true⟩ := by decide +kernel
  have third : final.ledger 65 = some ⟨.v2, [0x61], 0, false⟩ := by decide +kernel
  have allocated : ((fresh 128).run xxh64 ops).region.allocated = {0, 40} := by decide +kernel
  rw [allocated] at reads
  exact ⟨allocated, (reads 0 _ first).1 (by decide), (reads 40 _ second).1 (by decide),
    (reads 65 _ third).2 (by decide) rfl⟩

end Results

end RegionState

end Rdmas.Soundness
