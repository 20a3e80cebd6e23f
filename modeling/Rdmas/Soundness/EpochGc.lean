import Mathlib.Data.Finset.Sort
import Rdmas.Math.Runs
import Rdmas.Model.EpochGc
import Rdmas.Soundness.ExtentLedger

/-! # What the epoch collector reclaims

Runs of allocations, scheduled deletions and sweeps. The pending list is dropped by every sweep, so the
epoch of an extent lives on in its header; the ledger of the region says what the header holds. A payload
of 4 GiB or more is cut in its header, and its release leaks the rest of its range: the region is
accounted for together with the ranges leaked so far, which lie on no free list.
-/

namespace Rdmas.Soundness

open Rdmas.Model LittleEndian ByteMemory Tiling Runs Function ExtentRecord

/-- A region with another free list. -/
def withFreeList (region : LargeObjectRegion) (freeList : List Range) : LargeObjectRegion :=
  { region with freeList }

section FreeList

variable (region : LargeObjectRegion)

private theorem markForGc_withFreeList (freeList : List Range) (offset : ℕ) (epoch : BitVec 64) :
    ((withFreeList region freeList).markForGc offset epoch).1 =
      withFreeList (region.markForGc offset epoch).1 freeList := by
  have same : (withFreeList region freeList).readDecodedHeader offset =
      region.readDecodedHeader offset := rfl
  have size : (withFreeList region freeList).size = region.size := rfl
  simp only [LargeObjectRegion.markForGc, same, size]
  split
  · rfl
  · split_ifs <;> rfl

theorem release_withFreeList (freeList : List Range) (offset : ℕ) (decoded : DecodedHeader) :
    (withFreeList region freeList).release offset decoded =
      withFreeList (region.release offset decoded) (freeList ++ [(offset, decoded.totalLen)]) := by
  have size : (withFreeList region freeList).size = region.size := rfl
  simp only [LargeObjectRegion.release, LargeObjectRegion.zeroMagic, size]
  split_ifs <;> rfl

/-- A sweep appends to the free list and does not look at it. -/
theorem sweep_withFreeList (minActiveEpoch : BitVec 64) (order : List ℕ) :
    ∃ added, ∀ freeList, ((withFreeList region freeList).sweep minActiveEpoch order).1 =
      withFreeList (region.sweep minActiveEpoch order).1 (freeList ++ added) := by
  induction order generalizing region with
  | nil => exact ⟨[], fun freeList => by rw [List.append_nil]; rfl⟩
  | cons offset order ih =>
    have same : ∀ freeList, (withFreeList region freeList).sweepable minActiveEpoch offset =
        region.sweepable minActiveEpoch offset := fun _ => rfl
    simp only [LargeObjectRegion.sweep, same]
    cases region.sweepable minActiveEpoch offset with
    | none => exact ih region
    | some decoded =>
      obtain ⟨added, rest⟩ := ih (region.release offset decoded)
      refine ⟨(offset, decoded.totalLen) :: added, fun freeList => ?_⟩
      simp only [release_withFreeList, rest, List.append_assoc, List.singleton_append]

private theorem sweep_freeList (minActiveEpoch : BitVec 64) (order : List ℕ) :
    ∃ added, (region.sweep minActiveEpoch order).1.freeList = region.freeList ++ added := by
  obtain ⟨added, rest⟩ := sweep_withFreeList region minActiveEpoch order
  exact ⟨added, congrArg LargeObjectRegion.freeList (rest region.freeList)⟩

@[simp] theorem allocated_release (offset : ℕ) (decoded : DecodedHeader) :
    (region.release offset decoded).allocated = region.allocated.erase offset := by
  simp only [LargeObjectRegion.release, LargeObjectRegion.zeroMagic]
  split <;> rfl

/-- An extent that a sweep takes from the allocated ones goes to the free list. -/
theorem sweep_reclaims {minActiveEpoch : BitVec 64} {order : List ℕ} {offset : ℕ}
    (member : offset ∈ region.allocated) (gone : offset ∉ (region.sweep minActiveEpoch order).1.allocated) :
    ∃ length, (offset, length) ∈ (region.sweep minActiveEpoch order).1.freeList := by
  induction order generalizing region with
  | nil => exact absurd member gone
  | cons visited order ih =>
    simp only [LargeObjectRegion.sweep] at gone ⊢
    cases test : region.sweepable minActiveEpoch visited with
    | none =>
      rw [test] at gone
      exact ih region member gone
    | some decoded =>
      rw [test] at gone
      by_cases own : offset = visited
      · subst visited
        obtain ⟨added, grown⟩ := sweep_freeList (region.release offset decoded) minActiveEpoch order
        refine ⟨decoded.totalLen, ?_⟩
        simp only [grown]
        refine List.mem_append_left _ ?_
        simp [LargeObjectRegion.release]
      · refine ih _ ?_ gone
        rw [allocated_release]
        exact Finset.mem_erase.mpr ⟨own, member⟩

/-- Marking changes bytes only. -/
theorem markForGc_frame (offset : ℕ) (epoch : BitVec 64) :
    (region.markForGc offset epoch).1 =
      { region with buffer := (region.markForGc offset epoch).1.buffer } := by
  simp only [LargeObjectRegion.markForGc]
  split
  · rfl
  · split_ifs <;> rfl

end FreeList

namespace RegionState

/-- The region agrees with the ledger once the leaked ranges are counted among the free ones. -/
def AccountedBut (leaked : List Range) (state : RegionState) : Prop :=
  Accounted ⟨withFreeList state.region (state.region.freeList ++ leaked), state.ledger⟩

variable {leaked : List Range} {state : RegionState} {offset : ℕ}

/-- The order of the free list does not matter. -/
theorem Accounted.perm {region : LargeObjectRegion} {ledger : Ledger} {freeList other : List Range}
    (accounted : Accounted ⟨withFreeList region freeList, ledger⟩) (same : freeList.Perm other) :
    Accounted ⟨withFreeList region other, ledger⟩ where
  allocated := accounted.allocated
  tiles := by
    have tiles := accounted.tiles
    simp only [ranges, withFreeList] at tiles ⊢
    rwa [Multiset.coe_eq_coe.mpr same] at tiles
  fits := accounted.fits
  released offset record found dead := by
    obtain ⟨length, member, room⟩ := accounted.released offset record found dead
    exact ⟨length, same.mem_iff.mp member, room⟩
  sound := accounted.sound
  stored := accounted.stored

theorem AccountedBut.mark (accounted : AccountedBut leaked state) {payload : Bytes}
    {mark epoch : BitVec 64} (found : state.ledger offset = some ⟨.v2, payload, mark, true⟩)
    (unmistakable : epoch.toNat % 2 ^ 32 ≠ extentMagic) :
    AccountedBut leaked ⟨(state.region.markForGc offset epoch).1,
      update state.ledger offset (some ⟨.v2, payload, epoch, true⟩)⟩ := by
  have marked := Accounted.mark accounted found unmistakable
  have kept : (state.region.markForGc offset epoch).1.freeList = state.region.freeList :=
    by rw [markForGc_frame]
  rw [markForGc_withFreeList] at marked
  rw [AccountedBut, kept]
  exact marked

theorem AccountedBut.sweep (accounted : AccountedBut leaked state) (minActiveEpoch : BitVec 64)
    {order : List ℕ} (distinct : order.Nodup)
    (allocated : ∀ offset ∈ order, offset ∈ state.region.allocated) :
    AccountedBut leaked ⟨(state.region.sweep minActiveEpoch order).1,
      sweptLedger state.ledger minActiveEpoch order⟩ := by
  obtain ⟨added, rest⟩ := sweep_withFreeList state.region minActiveEpoch order
  have grown : (state.region.sweep minActiveEpoch order).1.freeList = state.region.freeList ++ added :=
    congrArg LargeObjectRegion.freeList (rest state.region.freeList)
  have swept := (Accounted.sweep accounted minActiveEpoch distinct allocated).1
  rw [rest] at swept
  refine swept.perm ?_
  simp only [grown, List.append_assoc]
  exact List.perm_append_comm.append_left _

/-- As much of a payload as its header tells makes a sound record. -/
theorem sound_cut (data : Bytes) :
    Sound ⟨.v2, data.take (data.length % 2 ^ 32), 0, true⟩ := by
  refine sound_v2 ?_
  rw [List.length_take]
  omega

theorem size_cut_le (data : Bytes) :
    size ⟨.v2, data.take (data.length % 2 ^ 32), 0, true⟩ ≤ extentTotal data.length := by
  simp only [size, List.length_take, extentTotal_eq]
  omega

/-- An extent written at the bump pointer, whatever its length. -/
theorem AccountedBut.putExtent (accounted : AccountedBut leaked state) (data : Bytes) (checksum : ℕ)
    (room : state.region.nextOffset + extentTotal data.length ≤ state.region.size) :
    ∃ leaked, AccountedBut leaked ⟨{ state.region with
        buffer := (state.region.putExtent state.region.nextOffset data checksum).buffer
        nextOffset := state.region.nextOffset + extentTotal data.length
        allocated := insert state.region.nextOffset state.region.allocated },
      update state.ledger state.region.nextOffset
        (some ⟨.v2, data.take (data.length % 2 ^ 32), 0, true⟩)⟩ := by
  refine ⟨(state.region.nextOffset + size ⟨.v2, data.take (data.length % 2 ^ 32), 0, true⟩,
    extentTotal data.length - size ⟨.v2, data.take (data.length % 2 ^ 32), 0, true⟩) ::
      leaked, ?_⟩
  refine Accounted.enterNext accounted rfl (sound_cut data) room
    (cover_middle (size_cut_le data) _ leaked) ?_
    (putExtent_outside state.region _ data checksum)
    (stored_putExtent_cut state.region _ data checksum)
  intro range member
  exact (List.mem_append.mp member).elim (fun free => List.mem_append_left _ free)
    fun lost => List.mem_append_right _ (List.mem_cons_of_mem _ lost)

/-- Whatever its length, a payload is entered with as much of it as its header tells; the rest of its
range leaks. -/
theorem AccountedBut.allocate (accounted : AccountedBut leaked state) (data : Bytes) :
    ∃ leaked, AccountedBut leaked ⟨(state.region.allocate data).1,
      enter state.ledger (state.region.allocate data).2
        ⟨.v2, data.take (data.length % 2 ^ 32), 0, true⟩⟩ := by
  have sound := sound_cut data
  have stored := fun (offset : ℕ) => stored_putExtent_cut state.region offset data 0
  have smaller := size_cut_le data
  simp only [LargeObjectRegion.allocate]
  split
  · next idx chosen =>
      have outside := fun (offset : ℕ) => putExtent_outside state.region offset data 0
      generalize entered : (⟨.v2, data.take (data.length % 2 ^ 32), 0, true⟩ : ExtentRecord) = record
        at sound stored smaller ⊢
      have live : record.live = true := by rw [← entered]
      have positive := record.le_size
      obtain ⟨perm, large⟩ := firstFit_spec chosen
      generalize state.region.freeList.getD idx (0, 0) = range at large perm ⊢
      generalize state.region.freeList.eraseIdx idx = removed at perm ⊢
      obtain ⟨offset, length⟩ := range
      simp only at large
      have carved : ∀ address, cover ((offset, extentTotal data.length) ::ₘ ((((if length >
          extentTotal data.length then removed ++ [(offset + extentTotal data.length,
            length - extentTotal data.length)] else removed) ++ leaked : List Range) : Multiset Range)))
          address = cover ((offset, length) ::ₘ ((removed ++ leaked : List Range) : Multiset Range))
          address := by
        intro address
        split
        · rw [List.append_assoc, List.singleton_append]
          exact cover_middle large removed leaked address
        · next exact => rw [show extentTotal data.length = length by omega]
      refine ⟨(offset + record.size, extentTotal data.length - record.size) :: leaked, ?_⟩
      refine Accounted.enterFree accounted live sound (by omega) (perm.append_right leaked) ?_ ?_
        (fun query away => outside offset query (by simp only [Contains] at away ⊢; omega)) (stored _)
      · exact fun address => (cover_middle smaller _ leaked address).trans (carved address)
      · intro range member
        refine (List.mem_append.mp member).elim (fun free => List.mem_append_left _ ?_)
          fun lost => List.mem_append_right _ (List.mem_cons_of_mem _ lost)
        simp only [LargeObjectRegion.writeExtent, LargeObjectRegion.putExtent]
        split
        · exact List.mem_append_left _ free
        · exact free
  · split
    · exact ⟨leaked, accounted⟩
    · next room => exact accounted.putExtent data 0 (Nat.le_of_not_lt room)

/-- A sweep frees exactly the allocated extents whose last mark is due. -/
theorem AccountedBut.mem_sweep (accounted : AccountedBut leaked state) (minActiveEpoch : BitVec 64)
    {order : List ℕ} (distinct : order.Nodup) (enumerates : order.toFinset = state.region.allocated) :
    offset ∈ (state.region.sweep minActiveEpoch order).1.allocated ↔
      offset ∈ state.region.allocated ∧ ¬ (0 < state.ledger.lastMark offset ∧
        state.ledger.lastMark offset < minActiveEpoch.toNat) := by
  obtain ⟨added, rest⟩ := sweep_withFreeList state.region minActiveEpoch order
  have swept := (Accounted.sweep_exact accounted minActiveEpoch distinct enumerates).1
  rw [rest] at swept
  have same : (state.region.sweep minActiveEpoch order).1.allocated = _ := swept
  rw [same, Finset.mem_sdiff, Finset.mem_filter]
  exact and_congr_right fun member => not_congr (and_iff_right member)

end RegionState

/-- The ledger once one pending epoch is written. -/
def markEntry (ledger : Ledger) (entry : BitVec 64 × BitVec 64) : Ledger := update ledger entry.1.toNat
    ((ledger entry.1.toNat).map fun record => { record with mark := entry.2 })

/-- The ledger once all of them are written. -/
def markLedger (ledger : Ledger) (pending : List (BitVec 64 × BitVec 64)) : Ledger :=
  pending.foldl markEntry ledger

section Pending

variable {ledger : Ledger} {pending : List (BitVec 64 × BitVec 64)} {offset : ℕ}

/-- An offset that is not pending keeps its record, whatever it is. -/
theorem markLedger_update (entry : Option ExtentRecord)
    (absent : ∀ listed ∈ pending, listed.1.toNat ≠ offset) :
    markLedger (update ledger offset entry) pending =
      update (markLedger ledger pending) offset entry := by
  induction pending generalizing ledger with
  | nil => rfl
  | cons listed rest ih =>
    have differs := absent listed List.mem_cons_self
    have first : markEntry (update ledger offset entry) listed =
        update (markEntry ledger listed) offset entry := by
      rw [markEntry, markEntry, update_of_ne differs, update_comm differs]
    rw [markLedger, List.foldl_cons, first]
    exact ih fun later member => absent later (List.mem_cons_of_mem _ member)

/-- Marking changes no format and no payload, and enters nobody. -/
theorem markEntry_eq_some {record : ExtentRecord} {entry : BitVec 64 × BitVec 64}
    (found : markEntry ledger entry offset = some record) :
    ∃ held, ledger offset = some held ∧ held.format = record.format := by
  rw [markEntry, update_apply] at found
  split at found
  · next same =>
      subst same
      obtain ⟨held, before, rfl⟩ := Option.map_eq_some_iff.mp found
      exact ⟨held, before, rfl⟩
  · exact ⟨record, found, rfl⟩

theorem markLedger_eq_some {record : ExtentRecord} (found : markLedger ledger pending offset = some record) :
    ∃ held, ledger offset = some held ∧ held.format = record.format := by
  induction pending generalizing ledger with
  | nil => exact ⟨record, found, rfl⟩
  | cons entry rest ih =>
    obtain ⟨middle, later, same⟩ := ih found
    obtain ⟨held, before, earlier⟩ := markEntry_eq_some later
    exact ⟨held, before, earlier.trans same⟩

/-- Nor does it release anybody. -/
theorem live_markLedger : (markLedger ledger pending offset).map live =
    (ledger offset).map live := by
  induction pending generalizing ledger with
  | nil => rfl
  | cons entry rest ih =>
    refine Eq.trans ih ?_
    rw [markEntry, update_apply]
    split
    · next same => rw [same, Option.map_map]; rfl
    · rfl

theorem exists_markLedger {record : ExtentRecord} (pending : List (BitVec 64 × BitVec 64))
    (found : ledger offset = some record) :
    ∃ held, markLedger ledger pending offset = some held ∧ held.live = record.live :=
  Option.map_eq_some_iff.mp (live_markLedger.trans (congrArg (Option.map live) found))

/-- Writing the pending epochs keeps the region in step with the ledger. -/
theorem accountedBut_markPending {leaked : List Range} {region : LargeObjectRegion}
    (accounted : RegionState.AccountedBut leaked ⟨region, ledger⟩)
    (modern : ∀ offset record, ledger offset = some record → record.format = .v2)
    (live : ∀ entry ∈ pending, entry.1.toNat ∈ region.allocated ∧
      entry.2.toNat % 2 ^ 32 ≠ extentMagic) :
    RegionState.AccountedBut leaked ⟨EpochGc.markPending region pending, markLedger ledger pending⟩ ∧
      (EpochGc.markPending region pending).allocated = region.allocated := by
  induction pending generalizing region ledger with
  | nil => exact ⟨accounted, rfl⟩
  | cons entry rest ih =>
    obtain ⟨member, unmistakable⟩ := live entry List.mem_cons_self
    obtain ⟨⟨format, payload, mark, state⟩, found, alive⟩ := (accounted.allocated _).mp member
    obtain rfl : format = .v2 := modern _ _ found
    obtain rfl : state = true := alive
    have entered : markEntry ledger entry =
        update ledger entry.1.toNat (some ⟨.v2, payload, entry.2, true⟩) := by
      have before : ledger entry.1.toNat = _ := found
      rw [markEntry, before, Option.map_some]
    have marked := accounted.mark found unmistakable
    rw [← entered] at marked
    have kept : (region.markForGc entry.1.toNat entry.2).1.allocated = region.allocated := by
      rw [markForGc_frame]
    have onward := ih marked ?_ ?_
    · rwa [kept] at onward
    · intro offset record later
      obtain ⟨held, before, same⟩ := markEntry_eq_some later
      exact same.symm.trans (modern offset held before)
    · rw [kept]
      exact fun later listed => live later (List.mem_cons_of_mem _ listed)

end Pending

/-- Calls on a region and its collector. -/
inductive GcOp where
  | allocate (data : Bytes)
  | scheduleDeletion (offset : BitVec 64) (now : BitVec 32)
  | sweep (order : Enumeration) (minActiveTs : BitVec 32)
  | runGcCycle (order : Enumeration) (clientActiveTimestamps : List (BitVec 32))

/-- A region and its collector, and when the extent at an offset was last scheduled for deletion since it
was allocated. -/
structure GcState where
  region : LargeObjectRegion
  gc : EpochGc
  latest : ℕ → Option (BitVec 32)

/-- A call with an oldest active timestamp after the given epoch. -/
def GcOp.Outlives (epoch : BitVec 32) : GcOp → Prop
  | .sweep _ minActiveTs => epoch < minActiveTs
  | .runGcCycle _ clientActiveTimestamps =>
      clientActiveTimestamps ≠ [] ∧ ∀ ts ∈ clientActiveTimestamps, epoch < ts
  | _ => False

namespace GcState

/-- A fresh region, with nothing scheduled. -/
def fresh (size : ℕ) (gc : EpochGc) : GcState := ⟨.new size, gc, fun _ => none⟩

/-- One call. Deletions are scheduled of allocated extents, at clock readings other than zero and the
magic. -/
def step (state : GcState) : GcOp → Option GcState
  | .allocate data =>
      let (region, returned) := state.region.allocate data
      some ⟨region, state.gc, match returned with
        | some offset => update state.latest offset none
        | none => state.latest⟩
  | .scheduleDeletion offset now =>
      if offset.toNat ∈ state.region.allocated ∧ now ≠ 0 ∧ now.toNat ≠ extentMagic then
        some ⟨state.region, state.gc.scheduleDeletion offset now,
          update state.latest offset.toNat (some now)⟩
      else none
  | .sweep order minActiveTs =>
      let (gc, region, _) := state.gc.sweep state.region order minActiveTs
      some ⟨region, gc, state.latest⟩
  | .runGcCycle order clientActiveTimestamps =>
      let (gc, region, _) := runGcCycle state.gc state.region order clientActiveTimestamps
      some ⟨region, gc, state.latest⟩

/-- An extent is on the free list if it was due, and still allocated otherwise. -/
def Settled (region : LargeObjectRegion) (offset : ℕ) (due : Prop) : Prop :=
  (due → offset ∉ region.allocated ∧ ∃ length, (offset, length) ∈ region.freeList) ∧
    (¬ due → offset ∈ region.allocated)

/-- The call reclaims an allocated extent if its deletion was last scheduled before every active
timestamp, and keeps it otherwise. -/
def ReclaimsDue (state : GcState) (op : GcOp) : Prop :=
  ∀ next, state.step op = some next → ∀ offset ∈ state.region.allocated,
    Settled next.region offset (∃ epoch, state.latest offset = some epoch ∧ op.Outlives epoch)

/-- The headers and the pending list together say when each extent was last scheduled. -/
structure Tracked (leaked : List Range) (ledger : Ledger) (state : GcState) : Prop where
  accounted : RegionState.AccountedBut leaked ⟨state.region, ledger⟩
  modern : ∀ offset record, ledger offset = some record → record.format = .v2
  live : ∀ entry ∈ state.gc.pending, entry.1.toNat ∈ state.region.allocated ∧
    entry.2.toNat % 2 ^ 32 ≠ extentMagic
  marks : ∀ offset ∈ state.region.allocated, (markLedger ledger state.gc.pending).lastMark offset =
    ((state.latest offset).map BitVec.toNat).getD 0
  scheduled : ∀ offset epoch, state.latest offset = some epoch → epoch ≠ 0

variable {leaked : List Range} {ledger : Ledger} {state next : GcState}

theorem tracked_fresh (size : ℕ) {gc : EpochGc} (idle : gc.pending = []) :
    Tracked [] (fun _ => none) (fresh size gc) where
  accounted := RegionState.accounted_fresh size
  modern _ _ found := nomatch found
  live entry listed := by
    rw [fresh, idle] at listed
    exact absurd listed List.not_mem_nil
  marks offset member := absurd member (Finset.notMem_empty offset)
  scheduled _ _ found := nomatch found

/-- An allocation returns an offset that nobody holds. -/
theorem Tracked.vacant (tracked : Tracked leaked ledger state) {data : Bytes}
    {region : LargeObjectRegion} {offset : ℕ}
    (allocated : state.region.allocate data = (region, some offset)) :
    offset ∉ state.region.allocated := by
  have header := le_extentTotal data.length
  simp only [headerSize] at header
  rcases (allocate_eq_some allocated).2.2.2 with ⟨range, listed, rfl, large⟩ | ⟨rfl, _⟩
  · exact RegionState.Accounted.vacant_free tracked.accounted (by omega)
      (List.mem_append_left leaked listed)
  · exact RegionState.Accounted.vacant_next tracked.accounted

/-- The extent an allocation returns is not scheduled; the others are as before. -/
theorem Tracked.allocate (tracked : Tracked leaked ledger state) {data : Bytes}
    {region : LargeObjectRegion} {offset : ℕ}
    (allocated : state.region.allocate data = (region, some offset)) :
    ∃ leaked ledger, Tracked leaked ledger
      ⟨region, state.gc, update state.latest offset none⟩ := by
  have vacant := tracked.vacant allocated
  obtain ⟨_, grown, _⟩ := allocate_eq_some allocated
  obtain ⟨leaked', accounted⟩ := tracked.accounted.allocate data
  rw [allocated] at accounted
  refine ⟨leaked', _, accounted, ?_, ?_, ?_, ?_⟩
  · intro other record found
    rcases RegionState.update_eq_some.mp found with ⟨_, rfl⟩ | ⟨_, found⟩
    · rfl
    · exact tracked.modern other record found
  · intro entry listed
    obtain ⟨member, unmistakable⟩ := tracked.live entry listed
    exact ⟨grown ▸ Finset.mem_insert_of_mem member, unmistakable⟩
  · -- No pending entry is about the new extent: those are about extents allocated before.
    have absent : ∀ entry ∈ state.gc.pending, entry.1.toNat ≠ offset :=
      fun entry listed same => vacant (same ▸ (tracked.live entry listed).1)
    intro other member
    rw [RegionState.enter, markLedger_update _ absent]
    rcases eq_or_ne other offset with rfl | differs
    · simp [Ledger.lastMark]
    · have before : other ∈ state.region.allocated := by
        rw [grown] at member
        exact Finset.mem_of_mem_insert_of_ne member differs
      simpa [Ledger.lastMark, differs] using tracked.marks other before
  · intro other epoch found
    simp only [update_apply] at found
    split at found
    · cases found
    · exact tracked.scheduled other epoch found

/-- A clock reading is widened to an epoch. -/
theorem toNat_epoch (now : BitVec 32) : (now.setWidth 64).toNat = now.toNat := by
  rw [BitVec.toNat_setWidth, Nat.mod_eq_of_lt (now.isLt.trans (by decide))]

/-- Scheduling makes the reading of the clock the latest epoch of the extent. -/
theorem Tracked.scheduleDeletion (tracked : Tracked leaked ledger state) {offset : BitVec 64}
    {now : BitVec 32} (member : offset.toNat ∈ state.region.allocated) (nonzero : now ≠ 0)
    (unmistakable : now.toNat ≠ extentMagic) :
    Tracked leaked ledger ⟨state.region, state.gc.scheduleDeletion offset now,
      update state.latest offset.toNat (some now)⟩ where
  accounted := tracked.accounted
  modern := tracked.modern
  live entry listed := by
    rcases List.mem_append.mp listed with before | new
    · exact tracked.live entry before
    · obtain rfl := List.mem_singleton.mp new
      refine ⟨member, ?_⟩
      rwa [toNat_epoch, Nat.mod_eq_of_lt now.isLt]
  marks other allocated := by
    have appended : markLedger ledger (state.gc.scheduleDeletion offset now).pending =
        markEntry (markLedger ledger state.gc.pending) (offset, now.setWidth 64) := List.foldl_append
    rw [appended, markEntry]
    rcases eq_or_ne other offset.toNat with rfl | differs
    · obtain ⟨marked, same⟩ := accountedBut_markPending tracked.accounted tracked.modern tracked.live
      obtain ⟨record, found, _⟩ := (marked.allocated _).mp (same.symm ▸ member)
      have held : markLedger ledger state.gc.pending offset.toNat = some record := found
      simp only [Ledger.lastMark, update_self, held, Option.map_some, Option.getD_some,
        toNat_epoch]
    · simpa [Ledger.lastMark, differs] using tracked.marks other allocated
  scheduled other epoch found := by
    simp only [update_apply] at found
    split at found
    · exact Option.some.inj found ▸ nonzero
    · exact tracked.scheduled other epoch found

theorem sweptLedger_eq_some {minActiveEpoch : BitVec 64} {order : List ℕ} {offset : ℕ}
    {record : ExtentRecord}
    (found : RegionState.sweptLedger ledger minActiveEpoch order offset = some record) :
    ∃ held, ledger offset = some held ∧ held.format = record.format ∧ held.mark = record.mark := by
  rw [RegionState.sweptLedger] at found
  split at found
  · obtain ⟨held, before, rfl⟩ := Option.map_eq_some_iff.mp found
    refine ⟨held, before, ?_⟩
    rw [swept]
    split <;> exact ⟨rfl, rfl⟩
  · exact ⟨record, found, rfl, rfl⟩

theorem lastMark_sweptLedger (minActiveEpoch : BitVec 64) (order : List ℕ) (offset : ℕ) :
    (RegionState.sweptLedger ledger minActiveEpoch order).lastMark offset = ledger.lastMark offset := by
  simp only [Ledger.lastMark, RegionState.sweptLedger]
  split
  · rw [Option.map_map]
    simp [Function.comp_def]
  · rfl

/-- A sweep writes what is pending into the headers, and its marks survive it. -/
theorem Tracked.sweep (tracked : Tracked leaked ledger state) (order : Enumeration)
    (minActiveTs : BitVec 32) :
    let swept := state.gc.sweep state.region order minActiveTs
    (∃ ledger, Tracked leaked ledger ⟨swept.2.1, swept.1, state.latest⟩) ∧
      ∀ offset ∈ state.region.allocated,
        Settled swept.2.1 offset (∃ epoch, state.latest offset = some epoch ∧ epoch < minActiveTs) := by
  intro swept
  obtain ⟨marked, same⟩ := accountedBut_markPending tracked.accounted tracked.modern tracked.live
  have distinct := order.nodup (EpochGc.markPending state.region state.gc.pending).allocated
  have enumerates := order.complete (EpochGc.markPending state.region state.gc.pending).allocated
  have kept : ∀ offset, offset ∈ swept.2.1.allocated ↔ _ :=
    fun offset => marked.mem_sweep (minActiveTs.setWidth 64) distinct enumerates
  rw [same] at kept
  refine ⟨⟨_, marked.sweep _ distinct fun _ => order.mem_list.mp, ?_, ?_, ?_, tracked.scheduled⟩, ?_⟩
  · intro offset record found
    obtain ⟨held, later, same, _⟩ := sweptLedger_eq_some found
    obtain ⟨first, before, earlier⟩ := markLedger_eq_some later
    exact (earlier.trans same).symm.trans (tracked.modern offset first before)
  · exact fun entry pending => absurd pending List.not_mem_nil
  · intro offset member
    refine (lastMark_sweptLedger _ _ _).trans (tracked.marks offset ((kept offset).mp member).1)
  · intro offset member
    have spared : offset ∈ swept.2.1.allocated ↔
        ¬ ∃ epoch, state.latest offset = some epoch ∧ epoch < minActiveTs := by
      rw [kept, and_iff_right member, toNat_epoch, tracked.marks offset member]
      cases latest : state.latest offset with
      | none => simp
      | some epoch =>
        have positive : 0 < epoch.toNat := by
          have nonzero := tracked.scheduled offset epoch latest
          exact Nat.pos_of_ne_zero fun zero => nonzero (BitVec.eq_of_toNat_eq zero)
        simp [positive, BitVec.lt_def]
    refine ⟨fun due => ?_, spared.mpr⟩
    have gone : offset ∉ swept.2.1.allocated := fun still => spared.mp still due
    exact ⟨gone, sweep_reclaims _ (same.symm ▸ member) gone⟩

/-- The least timestamp is after an epoch exactly when all of them are. -/
theorem lt_minTimestamp {epoch : BitVec 32} {timestamps : List (BitVec 32)} (some_ : timestamps ≠ []) :
    epoch < minTimestamp timestamps ↔ ∀ ts ∈ timestamps, epoch < ts := by
  have folded : ∀ (rest : List (BitVec 32)) (first : BitVec 32),
      epoch < rest.foldl (fun least ts => if ts < least then ts else least) first ↔
        epoch < first ∧ ∀ ts ∈ rest, epoch < ts := by
    intro rest
    induction rest with
    | nil => simp
    | cons ts rest ih =>
      intro first
      rw [List.foldl_cons, ih, List.forall_mem_cons, ← and_assoc]
      refine and_congr_left fun _ => ?_
      simp only [BitVec.lt_def]
      split <;> omega
  cases timestamps with
  | nil => exact absurd rfl some_
  | cons first rest => rw [minTimestamp, folded, List.forall_mem_cons]

/-- What one call does: it keeps track, and it reclaims what is due. -/
theorem Tracked.step (tracked : Tracked leaked ledger state) (op : GcOp) :
    state.ReclaimsDue op ∧
      ∀ next, state.step op = some next → ∃ leaked ledger, Tracked leaked ledger next := by
  have kept : ∀ {region : LargeObjectRegion} {offset : ℕ} {op : GcOp}, offset ∈ region.allocated →
      (∀ epoch, ¬ op.Outlives epoch) → Settled region offset
        (∃ epoch, state.latest offset = some epoch ∧ op.Outlives epoch) := by
    intro region offset op member never
    exact ⟨fun ⟨epoch, _, outlives⟩ => absurd outlives (never epoch), fun _ => member⟩
  cases op with
  | allocate data =>
    rcases allocated : state.region.allocate data with ⟨region, _ | offset⟩
    · obtain rfl := allocate_eq_none allocated
      simp only [ReclaimsDue, GcState.step, allocated, Option.some.injEq, forall_eq']
      exact ⟨fun offset member => kept member fun _ => id, leaked, ledger, tracked⟩
    · obtain ⟨_, grown, _⟩ := allocate_eq_some allocated
      simp only [ReclaimsDue, GcState.step, allocated, Option.some.injEq, forall_eq']
      refine ⟨fun other member => kept ?_ fun _ => id, tracked.allocate allocated⟩
      rw [grown]
      exact Finset.mem_insert_of_mem member
  | scheduleDeletion offset now =>
    simp only [ReclaimsDue, GcState.step]
    split
    · next allowed =>
        obtain ⟨member, nonzero, unmistakable⟩ := allowed
        simp only [Option.some.injEq, forall_eq']
        exact ⟨fun offset member => kept member fun _ => id, leaked, ledger,
          tracked.scheduleDeletion member nonzero unmistakable⟩
    · exact ⟨nofun, nofun⟩
  | sweep order minActiveTs =>
    obtain ⟨onward, settled⟩ := tracked.sweep order minActiveTs
    simp only [ReclaimsDue, GcState.step, Option.some.injEq, forall_eq']
    exact ⟨settled, leaked, onward⟩
  | runGcCycle order clientActiveTimestamps =>
    simp only [ReclaimsDue, GcState.step, Option.some.injEq, forall_eq', runGcCycle]
    by_cases none_ : clientActiveTimestamps = []
    · subst none_
      exact ⟨fun offset member => kept member fun _ outlives => outlives.1 rfl, leaked, ledger, tracked⟩
    · obtain ⟨onward, settled⟩ := tracked.sweep order (minTimestamp clientActiveTimestamps)
      have listed : clientActiveTimestamps.isEmpty = false := by simpa using none_
      simp only [lt_minTimestamp none_] at settled
      simp only [listed, GcOp.Outlives, ne_eq, none_, not_false_eq_true, true_and]
      exact ⟨settled, leaked, onward⟩

end GcState

/-- In every run from a fresh region, an extent is reclaimed by the first sweep whose oldest active
timestamp is after the latest time its deletion was scheduled, and by no other call; an extent that was
not scheduled since its allocation is never reclaimed. -/
theorem gc_reclaims_exactly_when_due (size : ℕ) (gc : EpochGc) (idle : gc.pending = []) (ops : List GcOp) :
    Throughout GcState.step GcState.ReclaimsDue (GcState.fresh size gc) ops := by
  have advance : ∀ {state : GcState} {op : GcOp}, (∃ leaked ledger, state.Tracked leaked ledger) →
      state.ReclaimsDue op ∧ ∀ next, state.step op = some next →
        ∃ leaked ledger, next.Tracked leaked ledger := by
    rintro state op ⟨leaked, ledger, tracked⟩
    exact tracked.step op
  exact throughout_of_invariant advance ⟨[], _, GcState.tracked_fresh size idle⟩

/-- Iteration in increasing order. -/
def increasing : Enumeration where
  list offsets := offsets.sort (· ≤ ·)
  nodup offsets := offsets.sort_nodup (· ≤ ·)
  complete offsets := offsets.sort_toFinset (· ≤ ·)

/-- An extent is scheduled at time 5: a sweep for readers from 5 on keeps it, one for readers from 6 on
reclaims it, and the extent that takes its place stays. -/
theorem gc_reclaims_scheduled_extent :
    let start := GcState.fresh 64 (.new 1000 0)
    let ops : List GcOp := [.allocate [1], .scheduleDeletion 0 5, .sweep increasing 5,
      .runGcCycle increasing [9, 6], .allocate [2], .sweep increasing 100]
    (run GcState.step start (ops.take 3)).map (fun state => state.region.allocated) = some {0} ∧
      (run GcState.step start (ops.take 4)).map (fun state => state.region.allocated) = some ∅ ∧
      (run GcState.step start ops).map (fun state => state.region.read 0) = some (some [2]) ∧
      Throughout GcState.step GcState.ReclaimsDue start ops := by
  intro start ops
  refine ⟨by decide +kernel, by decide +kernel, by decide +kernel, ?_⟩
  exact gc_reclaims_exactly_when_due 64 (.new 1000 0) rfl _

end Rdmas.Soundness
