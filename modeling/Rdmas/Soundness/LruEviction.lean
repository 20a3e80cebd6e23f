import Rdmas.Soundness.EpochGc

/-! # Evictions and active readers

`maybe_sweep` goes over the region at most twice: once for an eviction, with the present time as the oldest
active timestamp, and once when the interval has elapsed, with the timestamp of the readers. Each pass
first marks what is pending. An eviction thereby reclaims, beside its candidates, whatever was deleted
before the present time, readers or not.
-/

namespace Rdmas.Soundness

open Rdmas.Model LittleEndian ByteMemory Tiling Runs

/-- The extents a sweep reclaims, each with its header at that moment. -/
def reclaimed (region : LargeObjectRegion) (minActiveEpoch : BitVec 64) :
    List ℕ → List (ℕ × DecodedHeader)
  | [] => []
  | offset :: offsets =>
      match region.sweepable minActiveEpoch offset with
      | some decoded =>
          (offset, decoded) :: reclaimed (region.release offset decoded) minActiveEpoch offsets
      | none => reclaimed region minActiveEpoch offsets

/-- The headers of allocated extents do not overlap. -/
def Spaced (region : LargeObjectRegion) : Prop :=
  ∀ left ∈ region.allocated, ∀ right ∈ region.allocated, left ≠ right →
    left + 24 ≤ right ∨ right + 24 ≤ left

instance (region : LargeObjectRegion) : Decidable (Spaced region) :=
  inferInstanceAs (Decidable (∀ left ∈ _, ∀ right ∈ _, _))

section Reclaimed

variable {region next : LargeObjectRegion} {minActiveEpoch : BitVec 64} {order : List ℕ}
variable {offset other : ℕ} {decoded : DecodedHeader}

theorem Spaced.mono (spaced : Spaced region) (fewer : next.allocated ⊆ region.allocated) :
    Spaced next :=
  fun left leftIn right rightIn => spaced left (fewer leftIn) right (fewer rightIn)

/-- Releasing an extent does not touch the header of another one. -/
theorem sweepable_release (apart : offset + 24 ≤ other ∨ other + 24 ≤ offset) :
    (region.release offset decoded).sweepable minActiveEpoch other =
      region.sweepable minActiveEpoch other := by
  have header : (region.release offset decoded).readDecodedHeader other =
      region.readDecodedHeader other := by
    simp only [LargeObjectRegion.release, LargeObjectRegion.zeroMagic]
    split
    · refine readDecodedHeader_congr rfl fun query lower upper => ?_
      exact write_outside (by simp only [List.length_cons, List.length_nil]; omega)
    · rfl
  rw [LargeObjectRegion.sweepable, header, LargeObjectRegion.sweepable]

/-- A sweep takes away the extents it reclaims. -/
theorem allocated_sweep (region : LargeObjectRegion) (minActiveEpoch : BitVec 64) (order : List ℕ) :
    (region.sweep minActiveEpoch order).1.allocated =
      region.allocated \ ((reclaimed region minActiveEpoch order).map Prod.fst).toFinset := by
  induction order generalizing region with
  | nil => simp [LargeObjectRegion.sweep, reclaimed]
  | cons visited order ih =>
    simp only [LargeObjectRegion.sweep, reclaimed]
    cases region.sweepable minActiveEpoch visited with
    | none => exact ih region
    | some decoded =>
      simp only [ih, allocated_release, List.map_cons, List.toFinset_cons, Finset.sdiff_insert,
        Finset.erase_sdiff_comm]

/-- The mark of a reclaimed extent is older than the oldest active epoch of the sweep. -/
theorem mark_lt_of_reclaimed (member : (offset, decoded) ∈ reclaimed region minActiveEpoch order) :
    decoded.epochMark < minActiveEpoch.toNat := by
  induction order generalizing region with
  | nil => exact absurd member List.not_mem_nil
  | cons visited order ih =>
    simp only [reclaimed] at member
    cases test : region.sweepable minActiveEpoch visited with
    | none =>
      rw [test] at member
      exact ih member
    | some header =>
      rw [test] at member
      rcases List.mem_cons.mp member with same | later
      · cases same
        have due := (Option.filter_eq_some_iff.mp test).2
        simp only [Bool.and_eq_true, decide_eq_true_eq] at due
        exact due.2
      · exact ih later

/-- Among spaced extents the sweep's test has the same outcome throughout the sweep. -/
theorem mem_reclaimed (spaced : Spaced region) (distinct : order.Nodup)
    (listed : ∀ offset ∈ order, offset ∈ region.allocated) :
    (offset, decoded) ∈ reclaimed region minActiveEpoch order ↔
      offset ∈ order ∧ region.sweepable minActiveEpoch offset = some decoded := by
  induction order generalizing region with
  | nil => simp [reclaimed]
  | cons visited order ih =>
    obtain ⟨fresh, distinct⟩ := List.nodup_cons.mp distinct
    obtain ⟨visitedIn, listed⟩ := List.forall_mem_cons.mp listed
    simp only [reclaimed, List.mem_cons]
    cases test : region.sweepable minActiveEpoch visited with
    | none =>
      rw [ih spaced distinct listed]
      constructor
      · exact fun ⟨later, due⟩ => ⟨.inr later, due⟩
      · rintro ⟨rfl | later, due⟩
        · rw [test] at due
          cases due
        · exact ⟨later, due⟩
    | some header =>
      have fewer : (region.release visited header).allocated ⊆ region.allocated := by
        rw [allocated_release]
        exact Finset.erase_subset _ _
      have remain : ∀ later ∈ order, later ∈ (region.release visited header).allocated := by
        intro later member
        rw [allocated_release]
        exact Finset.mem_erase.mpr ⟨fun same => fresh (same ▸ member), listed later member⟩
      rw [List.mem_cons, ih (spaced.mono fewer) distinct remain]
      have unmoved : offset ∈ order → (region.release visited header).sweepable minActiveEpoch offset =
          region.sweepable minActiveEpoch offset := by
        intro later
        have differs : visited ≠ offset := fun same => fresh (same ▸ later)
        exact sweepable_release (spaced visited visitedIn offset (listed offset later) differs)
      constructor
      · rintro (same | ⟨later, due⟩)
        · cases same
          exact ⟨.inl rfl, test⟩
        · exact ⟨.inr later, unmoved later ▸ due⟩
      · rintro ⟨rfl | later, due⟩
        · rw [test] at due
          exact .inl (by rw [Option.some.inj due])
        · exact .inr ⟨later, (unmoved later).trans due⟩

end Reclaimed

/-- One pass over the region: what is marked, in which order the extents are visited and which timestamp
counts as the oldest active one. -/
structure SweepPass where
  pending : List (BitVec 64 × BitVec 64)
  order : Enumeration
  minActiveTs : BitVec 32

namespace SweepPass

def marked (pass : SweepPass) (region : LargeObjectRegion) : LargeObjectRegion :=
  EpochGc.markPending region pass.pending

def run (pass : SweepPass) (region : LargeObjectRegion) : LargeObjectRegion :=
  ((pass.marked region).sweep (pass.minActiveTs.setWidth 64)
    (pass.order.list (pass.marked region).allocated)).1

/-- The extents the pass frees, with their headers. -/
def freed (pass : SweepPass) (region : LargeObjectRegion) : List (ℕ × DecodedHeader) :=
  reclaimed (pass.marked region) (pass.minActiveTs.setWidth 64)
    (pass.order.list (pass.marked region).allocated)

/-- The extents freed by one pass after the other. -/
def freedBy : List SweepPass → LargeObjectRegion → List (ℕ × DecodedHeader)
  | [], _ => []
  | pass :: rest, region => pass.freed region ++ freedBy rest (pass.run region)

variable {region : LargeObjectRegion}

theorem allocated_marked (pass : SweepPass) (region : LargeObjectRegion) :
    (pass.marked region).allocated = region.allocated := by
  rw [marked, EpochGc.markPending]
  induction pass.pending generalizing region with
  | nil => rfl
  | cons entry rest ih =>
    rw [List.foldl_cons, ih, markForGc_frame]

theorem allocated_run (pass : SweepPass) (region : LargeObjectRegion) :
    (pass.run region).allocated =
      region.allocated \ ((pass.freed region).map Prod.fst).toFinset := by
  rw [run, allocated_sweep, allocated_marked, freed, allocated_marked]

/-- The extents freed by the passes are those that are no longer allocated. -/
theorem allocated_runs (passes : List SweepPass) (region : LargeObjectRegion) :
    (passes.foldl (fun region pass => pass.run region) region).allocated =
      region.allocated \ ((freedBy passes region).map Prod.fst).toFinset := by
  induction passes generalizing region with
  | nil => simp [freedBy]
  | cons pass rest ih =>
    rw [List.foldl_cons, ih, allocated_run, freedBy, List.map_append, List.toFinset_append,
      sdiff_sdiff_left, Finset.sup_eq_union]

theorem mark_lt_of_freed {pass : SweepPass} {extent : ℕ × DecodedHeader}
    (member : extent ∈ pass.freed region) : extent.2.epochMark < pass.minActiveTs.toNat := by
  have older := mark_lt_of_reclaimed member
  rwa [GcState.toNat_epoch] at older

/-- A pass frees the extents whose header, once the marks are written, is older than its timestamp. -/
theorem mem_freed (spaced : Spaced region) {pass : SweepPass} {offset : ℕ} {decoded : DecodedHeader} :
    (offset, decoded) ∈ pass.freed region ↔
      offset ∈ region.allocated ∧ (pass.marked region).readDecodedHeader offset = some decoded ∧
        0 < decoded.epochMark ∧ decoded.epochMark < pass.minActiveTs.toNat := by
  have same := pass.allocated_marked region
  rw [freed, mem_reclaimed (spaced.mono same.subset) (pass.order.nodup _)
    fun _ => pass.order.mem_list.mp, pass.order.mem_list, same, LargeObjectRegion.sweepable,
    Option.filter_eq_some_iff, GcState.toNat_epoch]
  simp only [Bool.and_eq_true, decide_eq_true_eq, gt_iff_lt]

end SweepPass

section Passes

variable (gc : EpochGc) (now : BitVec 32) (inputs : EvictionInputs)

/-- The interval since the last sweep has not elapsed. -/
def Early : Prop := now.setWidth 64 - gc.lastSweep < gc.sweepIntervalMs

instance : Decidable (Early gc now) := inferInstanceAs (Decidable (_ < _))

/-- The pass made to evict up to `n` entries, if there is any: the candidates are marked after what is
pending, and the present time is the oldest active one. -/
def passOf (pending : List (BitVec 64 × BitVec 64)) (lru : LruTracker) (n : ℕ) : Option SweepPass :=
  let candidates := (lru.selectEvictionCandidates inputs.iterate n).2
  if candidates.isEmpty then none
  else some ⟨pending ++ candidates.zipIdx.map fun candidate =>
    (candidate.1, (inputs.clock candidate.2).setWidth 64), inputs.order, inputs.clock candidates.length⟩

/-- The pass of an eviction, if there is a tracker and it is above its watermark. -/
def evictionPass : Option SweepPass :=
  gc.lru.bind fun lru =>
    if lru.needsEviction then
      passOf inputs gc.pending lru (if Early gc now then max ((lru.keyCount - min lru.keyCount 1) / 10) 1
        else max (lru.keyCount / 10) 1)
    else none

/-- The passes `maybe_sweep` makes: an eviction, and a sweep for the readers if the interval has elapsed.
What the eviction has marked is no longer pending. -/
def passes (order : Enumeration) (minActiveTs : BitVec 32) : List SweepPass :=
  let eviction := evictionPass gc now inputs
  eviction.toList ++
    if Early gc now then [] else [⟨eviction.elim gc.pending fun _ => [], order, minActiveTs⟩]

variable {gc now inputs} {region : LargeObjectRegion} {lru : LruTracker}

private theorem scheduleAll_pending (candidates : List (BitVec 64)) (clock : ℕ → BitVec 32) :
    (gc.scheduleAll candidates clock).pending =
      gc.pending ++ candidates.zipIdx.map fun candidate =>
        (candidate.1, (clock candidate.2).setWidth 64) := by
  rw [EpochGc.scheduleAll]
  induction candidates.zipIdx generalizing gc with
  | nil => simp
  | cons candidate rest ih =>
    rw [List.foldl_cons, ih, EpochGc.scheduleDeletion, List.map_cons, List.append_assoc,
      List.singleton_append]

/-- An eviction makes its pass, and leaves nothing pending if it does. -/
theorem evictLru_pass (gc : EpochGc) (region : LargeObjectRegion) (inputs : EvictionInputs)
    (tracker : gc.lru = some lru) (n : ℕ) :
    (gc.evictLru region n inputs).2.1 =
        (passOf inputs gc.pending lru n).elim region (fun pass => pass.run region) ∧
      (gc.evictLru region n inputs).1.pending = (passOf inputs gc.pending lru n).elim gc.pending fun _ => [] := by
  simp only [EpochGc.evictLru, tracker, passOf]
  split
  · exact ⟨rfl, rfl⟩
  · simp only [EpochGc.sweep, scheduleAll_pending]
    exact ⟨rfl, rfl⟩

/-- `maybe_sweep` makes its passes one after the other. -/
theorem maybeSweep_region (order : Enumeration) (minActiveTs : BitVec 32) :
    (gc.maybeSweep region order minActiveTs now inputs).2.1 =
      (passes gc now inputs order minActiveTs).foldl (fun region pass => pass.run region) region := by
  rw [passes, List.foldl_append]
  by_cases early : Early gc now
  · have unelapsed : now.setWidth 64 - gc.lastSweep < gc.sweepIntervalMs := early
    simp only [EpochGc.maybeSweep, if_pos unelapsed, evictionPass, if_pos early, List.foldl_nil]
    cases tracker : gc.lru with
    | none => rfl
    | some lru =>
      simp only [Option.bind_some]
      split
      · rw [(evictLru_pass gc region inputs tracker _).1]
        cases passOf inputs gc.pending lru _ <;> rfl
      · rfl
  · have elapsed : ¬ now.setWidth 64 - gc.lastSweep < gc.sweepIntervalMs := early
    simp only [EpochGc.maybeSweep, if_neg elapsed, evictionPass, if_neg early]
    cases tracker : gc.lru with
    | none => rfl
    | some lru =>
      simp only [Option.bind_some]
      split
      · obtain ⟨evicted, pending⟩ := evictLru_pass ⟨gc.pending, gc.sweepIntervalMs, now.setWidth 64, lru⟩
          region inputs rfl (max (lru.keyCount / 10) 1)
        simp only [EpochGc.sweep, evicted, pending]
        cases passOf inputs gc.pending lru _ <;> rfl
      · rfl

end Passes

/-- Calls on a collector. -/
inductive CollectorOp where
  | scheduleDeletion (offset : BitVec 64) (now : BitVec 32)
  | recordAccess (keyHash : BitVec 64) (now : ℕ)
  | maybeSweep (order : Enumeration) (minActiveTs now : BitVec 32) (inputs : EvictionInputs)

/-- A collector and the region it sweeps. -/
structure Collector where
  gc : EpochGc
  region : LargeObjectRegion

namespace Collector

def step (state : Collector) : CollectorOp → Option Collector
  | .scheduleDeletion offset now => some { state with gc := state.gc.scheduleDeletion offset now }
  | .recordAccess keyHash now =>
      some { state with gc := { state.gc with
        lru := state.gc.lru.map fun lru => lru.recordAccess keyHash now } }
  | .maybeSweep order minActiveTs now inputs =>
      let (gc, region, _) := state.gc.maybeSweep state.region order minActiveTs now inputs
      some ⟨gc, region⟩

/-- The extents a call frees, with the header each of them had at that moment. -/
def freed (state : Collector) : CollectorOp → List (ℕ × DecodedHeader)
  | .maybeSweep order minActiveTs now inputs =>
      SweepPass.freedBy (passes state.gc now inputs order minActiveTs) state.region
  | _ => []

/-- Every extent the call frees has a mark older than the oldest active timestamp it is given. -/
def FreesOnlyUnread (state : Collector) (op : CollectorOp) : Prop :=
  match op with
  | .maybeSweep _ minActiveTs _ _ => ∀ extent ∈ state.freed op, extent.2.epochMark < minActiveTs.toNat
  | _ => True

/-- The call makes no eviction, or none of the allocated extents is marked with a time from the oldest
active one up to the present once the marks are written. -/
def EvictsOnlyUnread (state : Collector) : CollectorOp → Prop
  | .maybeSweep _ minActiveTs now inputs =>
      ∀ pass ∈ evictionPass state.gc now inputs, ∀ offset ∈ state.region.allocated,
        ∀ decoded ∈ (pass.marked state.region).readDecodedHeader offset,
          0 < decoded.epochMark → decoded.epochMark < pass.minActiveTs.toNat →
            decoded.epochMark < minActiveTs.toNat
  | _ => True

instance (state : Collector) : (op : CollectorOp) → Decidable (state.EvictsOnlyUnread op)
  | .scheduleDeletion _ _ => isTrue trivial
  | .recordAccess _ _ => isTrue trivial
  | .maybeSweep _ _ _ _ => inferInstanceAs (Decidable (∀ pass ∈ _, ∀ offset ∈ _, ∀ decoded ∈ _, _))

variable {state next : Collector} {op : CollectorOp}

/-- The freed extents are the ones that were allocated before the call and are not after it. -/
theorem allocated_step (taken : state.step op = some next) :
    next.region.allocated = state.region.allocated \ ((state.freed op).map Prod.fst).toFinset := by
  cases op with
  | scheduleDeletion offset now =>
    cases taken
    exact Finset.sdiff_empty.symm
  | recordAccess keyHash now =>
    cases taken
    exact Finset.sdiff_empty.symm
  | maybeSweep order minActiveTs now inputs =>
    cases taken
    change (state.gc.maybeSweep state.region order minActiveTs now inputs).2.1.allocated = _
    rw [maybeSweep_region, SweepPass.allocated_runs, freed]

/-- The sweep for the readers never frees too much, so only an eviction can. -/
theorem freesOnlyUnread_iff (spaced : Spaced state.region) :
    state.FreesOnlyUnread op ↔ state.EvictsOnlyUnread op := by
  cases op with
  | scheduleDeletion offset now => exact Iff.rfl
  | recordAccess keyHash now => exact Iff.rfl
  | maybeSweep order minActiveTs now inputs =>
    have interval : ∀ (pending : List (BitVec 64 × BitVec 64)) (region : LargeObjectRegion),
        ∀ extent ∈ SweepPass.freedBy (if Early state.gc now then [] else [⟨pending, order, minActiveTs⟩])
          region, extent.2.epochMark < minActiveTs.toNat := by
      intro pending region extent member
      split at member
      · exact absurd member List.not_mem_nil
      · rw [SweepPass.freedBy, SweepPass.freedBy, List.append_nil] at member
        exact SweepPass.mark_lt_of_freed member
    simp only [FreesOnlyUnread, EvictsOnlyUnread, freed, passes]
    cases evictionPass state.gc now inputs with
    | none => exact iff_of_true (interval _ _) nofun
    | some pass =>
      rw [Option.toList_some, List.singleton_append, SweepPass.freedBy, List.forall_mem_append,
        and_iff_left (interval _ _)]
      constructor
      · rintro all pass ⟨⟩ offset member decoded header positive older
        exact all (offset, decoded) ((SweepPass.mem_freed spaced).mpr ⟨member, header, positive, older⟩)
      · rintro unread ⟨offset, decoded⟩ evicted
        obtain ⟨member, header, positive, older⟩ := (SweepPass.mem_freed spaced).mp evicted
        exact unread pass rfl offset member decoded header positive older

theorem spaced_step (spaced : Spaced state.region) (taken : state.step op = some next) :
    Spaced next.region := by
  refine spaced.mono ?_
  rw [allocated_step taken]
  exact Finset.sdiff_subset

end Collector

/-- In a run of scheduled deletions, recorded accesses and calls of `maybe_sweep`, no extent is freed
under an active reader exactly if every eviction finds no extent that was deleted since the oldest active
timestamp. -/
theorem gc_spares_readers_iff (gc : EpochGc) (region : LargeObjectRegion) (spaced : Spaced region)
    (ops : List CollectorOp) :
    Throughout Collector.step Collector.FreesOnlyUnread ⟨gc, region⟩ ops ↔
      Throughout Collector.step Collector.EvictsOnlyUnread ⟨gc, region⟩ ops := by
  have same : ∀ {state : Collector} {op : CollectorOp}, Spaced state.region →
      (state.FreesOnlyUnread op ↔ state.EvictsOnlyUnread op) := Collector.freesOnlyUnread_iff
  exact throughout_congr same (fun spaced _ taken => Collector.spaced_step spaced taken) spaced

/-- A region with one extent. -/
def oneExtent : LargeObjectRegion := ((LargeObjectRegion.new 64).allocate [1]).1

private theorem spaced_oneExtent : Spaced oneExtent := by decide

/-- The clock shows 13 and then 14. -/
def evictionInputs : EvictionInputs := ⟨id, increasing, fun reading => 13 + BitVec.ofNat 32 reading⟩

/-- With an extent deleted at time 10 and a tracker above its watermark, a call for readers from 11 on
frees the extent, which they cannot see, and nothing else. -/
theorem gc_spares_late_readers :
    let start : Collector := ⟨.withLru 1000 (.new 0) 9, oneExtent⟩
    let ops : List CollectorOp :=
      [.scheduleDeletion 0 10, .recordAccess 7 11, .maybeSweep increasing 11 12 evictionInputs]
    start.region.allocated = {0} ∧
      (run Collector.step start ops).map (fun final => final.region.allocated) = some ∅ ∧
      Throughout Collector.step Collector.FreesOnlyUnread start ops := by
  intro start ops
  refine ⟨by decide +kernel, by decide +kernel, ?_⟩
  exact (gc_spares_readers_iff _ _ spaced_oneExtent _).mpr (by decide +kernel)

/-- A reader is active since time 5 and an extent is deleted at time 10. The access of an unrelated key
brings the tracker above its watermark, and the eviction at time 13 frees the extent. -/
theorem gc_frees_under_reader :
    ¬ Throughout Collector.step Collector.FreesOnlyUnread
      ⟨.withLru 1000 (.new 0) 9, oneExtent⟩
      [.scheduleDeletion 0 10, .recordAccess 7 11, .maybeSweep increasing 5 12 evictionInputs] := by
  intro holds
  have last := ((holds.2 _ rfl).2 _ rfl).1
  exact absurd ((Collector.freesOnlyUnread_iff spaced_oneExtent).mp last) (by decide +kernel)

end Rdmas.Soundness
