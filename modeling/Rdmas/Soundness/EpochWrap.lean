import Rdmas.Math.Eras
import Rdmas.Soundness.ExtentLifecycle

/-! # Epochs across the wrap of the clock

Deletions and client activity are stamped by a 32-bit millisecond clock; the collector compares the stamps
as numbers. Here the true times are kept beside the stamps. Within one era of 2 ^ 32 ms the comparison is
that of the times. A deletion and an activity on opposite sides of a wrap are compared the wrong way round,
and a deletion stamped zero counts as no deletion at all.
-/

namespace Rdmas.Soundness

open Rdmas.Model Tiling Runs Eras LittleEndian Function

/-- The millisecond clock wraps after so many milliseconds. -/
def clockPeriod : ℕ := 2 ^ 32

/-- `now_ms` at a true time. -/
def nowMs (time : ℕ) : BitVec 32 := BitVec.ofNat 32 time

theorem toNat_nowMs (time : ℕ) : (nowMs time).toNat = reading clockPeriod time :=
  BitVec.toNat_ofNat time 32

/-- The functions that write a new extent. -/
inductive ExtentWriter where
  | allocate
  | writeExtentV1
  | writeExtentV2Checksummed
deriving DecidableEq, Repr

namespace ExtentWriter

def call (xxh64 : Xxh64) (region : LargeObjectRegion) (data : Bytes) :
    ExtentWriter → LargeObjectRegion × Option ℕ
  | .allocate => region.allocate data
  | .writeExtentV1 => region.writeExtentV1 data
  | .writeExtentV2Checksummed => region.writeExtentV2Checksummed xxh64 data

def format : ExtentWriter → ExtentFormat
  | .writeExtentV1 => .v1
  | .allocate | .writeExtentV2Checksummed => .v2

end ExtentWriter

/-- Calls on a region and its collector, at true times. -/
inductive ClockOp where
  | write (writer : ExtentWriter) (data : Bytes)
  | scheduleDeletion (offset : BitVec 64) (time : ℕ)
  | runGcCycle (order : Enumeration) (lastActive : List ℕ)

/-- The true times a call brings in. -/
def ClockOp.times : ClockOp → List ℕ
  | .write _ _ => []
  | .scheduleDeletion _ time => [time]
  | .runGcCycle _ lastActive => lastActive

/-- A region with its ledger, its collector, and when the extent at an offset was last scheduled for deletion
since it was written. -/
structure ClockState where
  regions : RegionState
  gc : EpochGc
  deletedAt : ℕ → Option ℕ

namespace ClockState

/-- A fresh region, with nothing scheduled. -/
def fresh (size : ℕ) (gc : EpochGc) : ClockState := ⟨.fresh size, gc, fun _ => none⟩

/-- The ledger after a cycle: pending epochs are written, due extents released. -/
def cycleLedger (state : ClockState) (lastActive : List ℕ) : Ledger :=
  if lastActive = [] then state.regions.ledger
  else fun offset => (markLedger state.regions.ledger state.gc.pending offset).map fun record =>
    record.swept ((minTimestamp (lastActive.map nowMs)).setWidth 64)

def step (xxh64 : Xxh64) (state : ClockState) : ClockOp → Option ClockState
  | .write writer data =>
      let (region, returned) := writer.call xxh64 state.regions.region data
      some ⟨⟨region, RegionState.enter state.regions.ledger returned ⟨writer.format, data, 0, true⟩⟩,
        state.gc, match returned with
          | some offset => update state.deletedAt offset none
          | none => state.deletedAt⟩
  | .scheduleDeletion offset time =>
      some ⟨state.regions, state.gc.scheduleDeletion offset (nowMs time),
        update state.deletedAt offset.toNat (some time)⟩
  | .runGcCycle order lastActive =>
      let (gc, region, _) := runGcCycle state.gc state.regions.region order (lastActive.map nowMs)
      some ⟨⟨region, state.cycleLedger lastActive⟩, gc, state.deletedAt⟩

/-- Deletions are scheduled of allocated V2 extents, at clock readings other than the magic. -/
def SchedulesModern (state : ClockState) (op : ClockOp) : Prop :=
  ∀ offset time, op = .scheduleDeletion offset time →
    state.regions.HoldsV2 offset.toNat ∧ reading clockPeriod time ≠ extentMagic

/-- A cycle keeps an extent whose deletion is not before the last activity of some listed client, and
reclaims it when every listed client was active after the deletion. -/
def ReclaimsInTime (xxh64 : Xxh64) (state : ClockState) (op : ClockOp) : Prop :=
  ∀ order lastActive, op = .runGcCycle order lastActive →
    ∀ next, state.step xxh64 op = some next → ∀ offset ∈ state.regions.region.allocated,
      ∀ deleted, state.deletedAt offset = some deleted →
        ((∃ active ∈ lastActive, active ≤ deleted) → offset ∈ next.regions.region.allocated) ∧
        ((∀ active ∈ lastActive, deleted < active) → offset ∉ next.regions.region.allocated ∧
          ∃ length, (offset, length) ∈ next.regions.region.freeList)

end ClockState

/-- The stamps of a deletion and of the last activities tell what the times would. If every client was active
after the deletion: there is one, the deletion is not stamped zero, and the clock has not wrapped since. If
not: the deletion is stamped zero, or some client shows no more than its stamp, from after the next wrap or
from before the deletion in the same era. -/
def StampsTell (deleted : ℕ) (lastActive : List ℕ) : Prop :=
  if ∀ active ∈ lastActive, deleted < active then
    lastActive ≠ [] ∧ reading clockPeriod deleted ≠ 0 ∧
      ∀ active ∈ lastActive, era clockPeriod active = era clockPeriod deleted
  else
    reading clockPeriod deleted = 0 ∨ ∃ active ∈ lastActive,
      era clockPeriod deleted < era clockPeriod active ∨
        era clockPeriod active = era clockPeriod deleted ∧ active ≤ deleted

/-- At a cycle the stamps tell for every scheduled extent. -/
def ClockState.StampsTellAll (state : ClockState) (op : ClockOp) : Prop :=
  ∀ order lastActive, op = .runGcCycle order lastActive →
    ∀ offset ∈ state.regions.region.allocated, ∀ deleted, state.deletedAt offset = some deleted →
      StampsTell deleted lastActive

/-- What the collector tests: there is a client, and a stamp other than zero is below all of theirs. -/
def Reclaimed (deleted : ℕ) (lastActive : List ℕ) : Prop :=
  lastActive ≠ [] ∧ 0 < reading clockPeriod deleted ∧
    ∀ active ∈ lastActive, reading clockPeriod deleted < reading clockPeriod active

/-- The test is right exactly when the stamps tell. -/
theorem stampsTell_iff {base deleted : ℕ} {lastActive : List ℕ}
    (within : base ≤ deleted ∧ deleted ≤ base + 2 ^ 31)
    (withinToo : ∀ active ∈ lastActive, base ≤ active ∧ active ≤ base + 2 ^ 31) :
    StampsTell deleted lastActive ↔
      (Reclaimed deleted lastActive ↔ ∀ active ∈ lastActive, deleted < active) := by
  have compare : ∀ active ∈ lastActive, (reading clockPeriod deleted < reading clockPeriod active ↔
      (era clockPeriod deleted = era clockPeriod active ∧ deleted < active) ∨
        era clockPeriod active < era clockPeriod deleted) := by
    intro active member
    have bounds := withinToo active member
    exact reading_lt_reading_iff (by simp only [clockPeriod]; omega) (by simp only [clockPeriod]; omega)
  rw [StampsTell]
  split
  · next all =>
      -- The collector has to reclaim: all stamps must be greater, so no era may have ended.
      rw [iff_true_right all, Reclaimed, Nat.pos_iff_ne_zero]
      refine and_congr_right fun _ => and_congr_right fun _ => forall₂_congr fun active member => ?_
      have ordered : era clockPeriod deleted ≤ era clockPeriod active :=
        Nat.div_le_div_right (all active member).le
      have after := all active member
      rw [compare active member]
      omega
  · next early =>
      -- It must not reclaim: a stamp of zero or one other stamp that is not greater prevents it.
      have listed : lastActive ≠ [] := by
        rintro rfl
        exact early (fun _ member => absurd member List.not_mem_nil)
      rw [iff_false_right early, Reclaimed, and_iff_right listed, Nat.pos_iff_ne_zero, not_and_or,
        not_not]
      simp only [not_forall, exists_prop]
      refine or_congr_right (exists_congr fun active => and_congr_right fun member => ?_)
      rw [compare active member]
      omega

section Tracking

variable {xxh64 : Xxh64} {state next : ClockState} {regions : RegionState}
variable {base offset : ℕ} {pending : List (BitVec 64 × BitVec 64)}

/-- A mark leaves the formats alone. -/
theorem holdsV2_mark {other : ℕ} {epoch : BitVec 64} (holds : regions.HoldsV2 offset) :
    (regions.apply xxh64 (.markForGc other epoch)).HoldsV2 offset := by
  obtain ⟨payload, mark, found⟩ := holds.elim
  by_cases own : offset = other
  · subst own
    simp [RegionState.HoldsV2, RegionState.apply, found]
  · simp [RegionState.HoldsV2, RegionState.apply, found, own]

/-- Writing the pending epochs of V2 extents is careful. -/
theorem kept_markPending (kept : regions.Kept) (careful : ∀ entry ∈ pending,
      regions.HoldsV2 entry.1.toNat ∧ entry.2.toNat % 2 ^ 32 ≠ extentMagic) :
    RegionState.Kept ⟨EpochGc.markPending regions.region pending,
      markLedger regions.ledger pending⟩ := by
  induction pending generalizing regions with
  | nil => exact kept
  | cons entry rest ih =>
    obtain ⟨now, later⟩ := List.forall_mem_cons.mp careful
    have marked : (regions.apply (fun _ _ => 0) (.markForGc entry.1.toNat entry.2)).Kept := kept.apply now
    exact ih marked fun other member => ⟨holdsV2_mark (later other member).1, (later other member).2⟩

/-- The headers and the pending list together hold the stamps of the deletions. -/
structure Clocked (base : ℕ) (state : ClockState) : Prop where
  kept : state.regions.Kept
  pending : ∀ entry ∈ state.gc.pending,
    state.regions.HoldsV2 entry.1.toNat ∧ entry.2.toNat % 2 ^ 32 ≠ extentMagic
  marks : ∀ offset ∈ state.regions.region.allocated,
    (markLedger state.regions.ledger state.gc.pending).lastMark offset =
      ((state.deletedAt offset).map (reading clockPeriod)).getD 0
  inPlay : ∀ offset deleted, state.deletedAt offset = some deleted →
    base ≤ deleted ∧ deleted ≤ base + 2 ^ 31

private theorem clocked_fresh {size : ℕ} (small : size < 2 ^ 64) {gc : EpochGc} (idle : gc.pending = [])
    (base : ℕ) : Clocked base (.fresh size gc) where
  kept := RegionState.kept_fresh small
  pending entry listed := by
    rw [ClockState.fresh, idle] at listed
    exact absurd listed List.not_mem_nil
  marks offset member := absurd member (Finset.notMem_empty offset)
  inPlay _ _ found := nomatch found

/-- A new extent is written where nobody has one. -/
theorem vacant_call (kept : regions.Kept) {writer : ExtentWriter} {data : Bytes}
    {region : LargeObjectRegion} (called : writer.call xxh64 regions.region data = (region, some offset)) :
    offset ∉ regions.region.allocated := by
  obtain ⟨_, leaked, accounted⟩ := kept
  have header := le_extentTotal data.length
  simp only [headerSize] at header
  have next := RegionState.Accounted.vacant_next accounted
  cases writer with
  | allocate =>
    rcases (ExtentRecord.allocate_eq_some called).2.2.2 with ⟨range, listed, rfl, large⟩ | ⟨rfl, _⟩
    · have free := RegionState.Accounted.vacant_free accounted (show 0 < range.2 by omega)
        (List.mem_append_left leaked listed)
      exact free
    · exact next
  | writeExtentV1 =>
    simp only [ExtentWriter.call, LargeObjectRegion.writeExtentV1] at called
    split at called
    · cases called
    · cases called
      exact next
  | writeExtentV2Checksummed =>
    simp only [ExtentWriter.call, LargeObjectRegion.writeExtentV2Checksummed] at called
    split at called
    · cases called
    · cases called
      exact next

/-- Writing an extent is a careful call. -/
theorem kept_call (xxh64 : Xxh64) (kept : regions.Kept) (writer : ExtentWriter) (data : Bytes) :
    RegionState.Kept ⟨(writer.call xxh64 regions.region data).1, RegionState.enter regions.ledger
      (writer.call xxh64 regions.region data).2 ⟨writer.format, data, 0, true⟩⟩ := by
  have applied : ∀ op, regions.Careful op → (regions.apply xxh64 op).Kept := fun _ => kept.apply
  cases writer with
  | allocate => exact applied (.allocate data) trivial
  | writeExtentV1 => exact applied (.writeExtentV1 data) trivial
  | writeExtentV2Checksummed => exact applied (.writeExtentV2Checksummed data) trivial

/-- The extent a write returns is not scheduled; the others are as before. -/
theorem Clocked.write (clocked : Clocked base state) (writer : ExtentWriter) (data : Bytes)
    (taken : state.step xxh64 (.write writer data) = some next) : Clocked base next := by
  have kept := kept_call xxh64 clocked.kept writer data
  simp only [ClockState.step, Option.some.injEq] at taken
  subst taken
  rcases called : writer.call xxh64 state.regions.region data with ⟨region, _ | offset⟩
  · rw [called] at kept
    refine ⟨kept, clocked.pending, ?_, clocked.inPlay⟩
    intro offset member
    exact clocked.marks offset (clocked.kept.mem_allocated.mpr (kept.mem_allocated.mp member))
  · have vacant := vacant_call clocked.kept called
    rw [called] at kept
    -- No pending entry is about the new extent: those are about extents allocated before.
    have absent : ∀ entry ∈ state.gc.pending, entry.1.toNat ≠ offset := by
      intro entry listed same
      obtain ⟨payload, mark, found⟩ := (clocked.pending entry listed).1.elim
      exact vacant (same ▸ clocked.kept.mem_allocated.mpr ⟨_, found, rfl⟩)
    refine ⟨kept, ?_, ?_, ?_⟩
    · intro entry listed
      refine ⟨?_, (clocked.pending entry listed).2⟩
      have holds := (clocked.pending entry listed).1
      simpa [RegionState.HoldsV2, RegionState.enter, absent entry listed] using holds
    · intro other member
      simp only [RegionState.enter]
      rw [markLedger_update _ absent]
      rcases eq_or_ne other offset with rfl | differs
      · simp [Ledger.lastMark]
      · obtain ⟨record, found, live⟩ := kept.mem_allocated.mp member
        have before : other ∈ state.regions.region.allocated := by
          refine clocked.kept.mem_allocated.mpr ⟨record, ?_, live⟩
          simpa [RegionState.enter, differs] using found
        simpa [Ledger.lastMark, differs] using clocked.marks other before
    · intro other deleted found
      simp only [update_apply] at found
      split at found
      · cases found
      · exact clocked.inPlay other deleted found

theorem Clocked.scheduleDeletion (clocked : Clocked base state) {offset : BitVec 64} {time : ℕ}
    (holds : state.regions.HoldsV2 offset.toNat) (unmistakable : reading clockPeriod time ≠ extentMagic)
    (within : base ≤ time ∧ time ≤ base + 2 ^ 31) :
    Clocked base ⟨state.regions, state.gc.scheduleDeletion offset (nowMs time),
      update state.deletedAt offset.toNat (some time)⟩ where
  kept := clocked.kept
  pending entry listed := by
    rcases List.mem_append.mp listed with before | new
    · exact clocked.pending entry before
    · obtain rfl := List.mem_singleton.mp new
      refine ⟨holds, ?_⟩
      rwa [GcState.toNat_epoch, Nat.mod_eq_of_lt (nowMs time).isLt, toNat_nowMs]
  marks other allocated := by
    have appended : markLedger state.regions.ledger
        (state.gc.scheduleDeletion offset (nowMs time)).pending =
          markEntry (markLedger state.regions.ledger state.gc.pending)
            (offset, (nowMs time).setWidth 64) := List.foldl_append
    rw [appended, markEntry]
    rcases eq_or_ne other offset.toNat with rfl | differs
    · obtain ⟨payload, mark, found⟩ := holds.elim
      obtain ⟨record, held, _⟩ := exists_markLedger state.gc.pending found
      simp only [Ledger.lastMark, update_self, held, Option.map_some, Option.getD_some,
        GcState.toNat_epoch, toNat_nowMs]
    · simpa [Ledger.lastMark, differs] using clocked.marks other allocated
  inPlay other deleted found := by
    simp only [update_apply] at found
    split at found
    · exact Option.some.inj found ▸ within
    · exact clocked.inPlay other deleted found

/-- The collector's comparison of stamps. -/
theorem lt_minTimestamp_iff {deleted : ℕ} {lastActive : List ℕ} (listed : lastActive ≠ []) :
    reading clockPeriod deleted < (minTimestamp (lastActive.map nowMs)).toNat ↔
      ∀ active ∈ lastActive, reading clockPeriod deleted < reading clockPeriod active := by
  rw [← toNat_nowMs, ← BitVec.lt_def, GcState.lt_minTimestamp (by simpa using listed),
    List.forall_mem_map]
  simp only [BitVec.lt_def, toNat_nowMs]

/-- Releasing changes no mark. -/
theorem lastMark_map_swept (ledger : Ledger) (minActiveEpoch : BitVec 64) (offset : ℕ) :
    Ledger.lastMark (fun offset => (ledger offset).map fun record => record.swept minActiveEpoch) offset =
      ledger.lastMark offset := by
  simp [Ledger.lastMark, Function.comp_def]

/-- A cycle with listed clients writes what is pending into the headers and sweeps. -/
theorem step_runGcCycle (order : Enumeration) {lastActive : List ℕ} (listed : lastActive ≠ []) :
    let marked := EpochGc.markPending state.regions.region state.gc.pending
    let minActiveEpoch := (minTimestamp (lastActive.map nowMs)).setWidth 64
    state.step xxh64 (.runGcCycle order lastActive) = some
      ⟨⟨(marked.sweep minActiveEpoch (order.list marked.allocated)).1, fun offset =>
        (markLedger state.regions.ledger state.gc.pending offset).map fun record =>
          record.swept minActiveEpoch⟩, { state.gc with pending := [] }, state.deletedAt⟩ := by
  have stamps : (lastActive.map nowMs).isEmpty = false := by simpa using listed
  simp only [ClockState.step, Rdmas.Model.runGcCycle, stamps, ClockState.cycleLedger, if_neg listed,
    Bool.false_eq_true, if_false, EpochGc.sweep]

/-- A cycle reclaims what the test of the stamps says. -/
theorem Clocked.runGcCycle (clocked : Clocked base state) {order : Enumeration} {lastActive : List ℕ}
    (taken : state.step xxh64 (.runGcCycle order lastActive) = some next) :
    Clocked base next ∧ ∀ offset ∈ state.regions.region.allocated, ∀ deleted,
      state.deletedAt offset = some deleted →
        (offset ∈ next.regions.region.allocated ↔ ¬ Reclaimed deleted lastActive) ∧
        (offset ∉ next.regions.region.allocated →
          ∃ length, (offset, length) ∈ next.regions.region.freeList) := by
  by_cases listed : lastActive = []
  · subst listed
    cases taken
    refine ⟨clocked, fun offset member deleted _ => ⟨iff_of_true member fun reclaimed => ?_, ?_⟩⟩
    · exact reclaimed.1 rfl
    · exact fun gone => absurd member gone
  rw [step_runGcCycle order listed] at taken
  cases taken
  have marked := kept_markPending clocked.kept clocked.pending
  have distinct := order.nodup (EpochGc.markPending state.regions.region state.gc.pending).allocated
  have enumerates := order.complete (EpochGc.markPending state.regions.region state.gc.pending).allocated
  constructor
  · refine ⟨?_, fun entry pending => absurd pending List.not_mem_nil, ?_, clocked.inPlay⟩
    · exact marked.sweep _ distinct enumerates
    · intro offset member
      obtain ⟨held, found, live, _⟩ := (marked.mem_sweep distinct enumerates).mp member
      obtain ⟨record, before, liveBefore⟩ := Option.map_eq_some_iff.mp
        (live_markLedger.symm.trans (congrArg (Option.map ExtentRecord.live) found))
      exact (lastMark_map_swept _ _ _).trans
        (clocked.marks offset (clocked.kept.mem_allocated.mpr ⟨record, before, liveBefore.trans live⟩))
  · intro offset member deleted scheduled
    obtain ⟨before, found, live⟩ := clocked.kept.mem_allocated.mp member
    obtain ⟨held, foundHeld, liveHeld⟩ := exists_markLedger state.gc.pending found
    have mark := clocked.marks offset member
    simp only [Ledger.lastMark, foundHeld, scheduled, Option.map_some, Option.getD_some] at mark
    have due : held.due ((minTimestamp (lastActive.map nowMs)).setWidth 64) = true ↔
        Reclaimed deleted lastActive := by
      simp only [ExtentRecord.due, liveHeld, live, mark, GcState.toNat_epoch, Bool.true_and,
        Bool.and_eq_true, decide_eq_true_eq, lt_minTimestamp_iff listed, Reclaimed]
      exact (and_iff_right listed).symm
    refine ⟨(marked.mem_sweep distinct enumerates).trans ?_, fun gone => sweep_reclaims _ ?_ gone⟩
    · simp [foundHeld, liveHeld, live, ← due]
    · exact marked.mem_allocated.mpr ⟨held, foundHeld, liveHeld.trans live⟩

/-- The true times a call brings in lie in a window of 2 ^ 31 ms. -/
def ClockOp.Within (base : ℕ) (op : ClockOp) : Prop :=
  ∀ time ∈ op.times, base ≤ time ∧ time ≤ base + 2 ^ 31

theorem Clocked.step {op : ClockOp} (clocked : Clocked base state)
    (careful : state.SchedulesModern op ∧ op.Within base) (taken : state.step xxh64 op = some next) :
    Clocked base next := by
  obtain ⟨modern, within⟩ := careful
  cases op with
  | write writer data => exact clocked.write writer data taken
  | scheduleDeletion offset time =>
    cases taken
    obtain ⟨holds, unmistakable⟩ := modern offset time rfl
    exact clocked.scheduleDeletion holds unmistakable (within time List.mem_cons_self)
  | runGcCycle order lastActive => exact (clocked.runGcCycle taken).1

/-- A cycle reclaims in time exactly when the stamps tell. -/
theorem Clocked.reclaimsInTime_iff {op : ClockOp} (clocked : Clocked base state)
    (within : op.Within base) : state.ReclaimsInTime xxh64 op ↔ state.StampsTellAll op := by
  refine forall₃_congr fun order lastActive isCycle => ?_
  subst isCycle
  obtain ⟨next, taken⟩ : ∃ next, state.step xxh64 (.runGcCycle order lastActive) = some next := ⟨_, rfl⟩
  simp only [taken, Option.some.injEq, forall_eq']
  refine forall₄_congr fun offset member deleted scheduled => ?_
  obtain ⟨spared, reclaimed⟩ := (clocked.runGcCycle taken).2 offset member deleted scheduled
  have listedWithin : ∀ active ∈ lastActive, base ≤ active ∧ active ≤ base + 2 ^ 31 := within
  rw [stampsTell_iff (clocked.inPlay offset deleted scheduled) listedWithin]
  constructor
  · rintro ⟨keeps, reclaims⟩
    constructor
    · intro tested
      by_contra early
      simp only [not_forall, not_lt, exists_prop] at early
      exact spared.mp (keeps early) tested
    · intro all
      by_contra untested
      exact (reclaims all).1 (spared.mpr untested)
  · intro same
    refine ⟨fun ⟨active, listed, early⟩ => spared.mpr fun tested => ?_, fun all => ?_⟩
    · exact absurd (same.mp tested active listed) (not_lt.mpr early)
    · have gone := fun still => spared.mp still (same.mpr all)
      exact ⟨gone, reclaimed gone⟩

end Tracking

/-- In every run from a fresh region in which deletions are scheduled of allocated V2 extents, at readings
other than the magic, and all true times lie within 2 ^ 31 ms of each other: the cycles reclaim in time
throughout exactly when the stamps tell throughout. -/
theorem gc_right_across_wrap_iff (xxh64 : Xxh64) (size : ℕ)
    (small : size < 2 ^ 64) (gc : EpochGc) (idle : gc.pending = []) (ops : List ClockOp) (base : ℕ)
    (within : ∀ op ∈ ops, op.Within base)
    (modern : Throughout (ClockState.step xxh64) ClockState.SchedulesModern (.fresh size gc) ops) :
    Throughout (ClockState.step xxh64) (ClockState.ReclaimsInTime xxh64) (.fresh size gc) ops ↔
      Throughout (ClockState.step xxh64) ClockState.StampsTellAll (.fresh size gc) ops :=
  (modern.and (throughout_of_forall within _)).congr Clocked.step
    (fun clocked careful => clocked.reclaimsInTime_iff careful.2) (clocked_fresh small idle base)

/-- An extent is deleted at time 5, and both clients were active after that, in the same era. -/
theorem gc_right_within_era :
    Throughout (ClockState.step fun _ _ => 0) (ClockState.ReclaimsInTime fun _ _ => 0)
      (.fresh 64 (.new 1000 0))
      [.write .allocate [1], .scheduleDeletion 0 5, .runGcCycle increasing [9, 6]] := by
  have within : ∀ op ∈ [ClockOp.write .allocate [1], .scheduleDeletion 0 5, .runGcCycle increasing [9, 6]],
      op.Within 5 := by
    simp [ClockOp.Within, ClockOp.times]
  refine (gc_right_across_wrap_iff (fun _ _ => 0) 64 (by decide) (.new 1000 0) rfl _ 5 within ?_).mpr ?_
  · refine ⟨?_, fun _ taken => ⟨?_, fun _ takenToo => ⟨?_, fun _ _ => trivial⟩⟩⟩
    · intro offset time scheduled
      cases scheduled
    · cases taken
      intro offset time scheduled
      cases scheduled
      exact ⟨by decide +kernel, by decide⟩
    · intro offset time scheduled
      cases scheduled
  · refine ⟨?_, fun _ taken => ⟨?_, fun _ takenToo => ⟨?_, fun _ _ => trivial⟩⟩⟩
    · intro order lastActive isCycle
      cases isCycle
    · intro order lastActive isCycle
      cases isCycle
    · cases taken
      cases takenToo
      intro order lastActive isCycle offset _ deleted scheduled
      cases isCycle
      change update (update (fun _ => none) 0 none) 0 (some 5) offset =
        some deleted at scheduled
      obtain rfl : 5 = deleted := by
        simp only [update_apply] at scheduled
        split at scheduled
        · exact Option.some.inj scheduled
        · cases scheduled
      simp [StampsTell, reading, era, clockPeriod]

/-- A deletion in the last millisecond before the wrap is never collected, though the only client has been
active since; and a deletion after the wrap is collected under a client that was last active before it. -/
theorem gc_wrong_across_wrap :
    ¬ Throughout (ClockState.step fun _ _ => 0) (ClockState.ReclaimsInTime fun _ _ => 0)
        (.fresh 64 (.new 1000 0))
        [.write .allocate [1], .scheduleDeletion 0 (2 ^ 32 - 1), .runGcCycle increasing [2 ^ 32 + 5]] ∧
      ¬ Throughout (ClockState.step fun _ _ => 0) (ClockState.ReclaimsInTime fun _ _ => 0)
        (.fresh 64 (.new 1000 0))
        [.write .allocate [1], .scheduleDeletion 0 (2 ^ 32 + 5), .runGcCycle increasing [2 ^ 32 - 1]] := by
  constructor
  · intro holds
    have last := ((holds.2 _ rfl).2 _ rfl).1
    have reclaims := (last increasing _ rfl _ rfl 0 (by decide +kernel) (2 ^ 32 - 1) rfl).2 (by decide)
    exact absurd reclaims.1 (by decide +kernel)
  · intro holds
    have last := ((holds.2 _ rfl).2 _ rfl).1
    have keeps := (last increasing _ rfl _ rfl 0 (by decide +kernel) (2 ^ 32 + 5) rfl).1
      ⟨2 ^ 32 - 1, by decide, by decide⟩
    exact absurd keeps (by decide +kernel)

end Rdmas.Soundness
