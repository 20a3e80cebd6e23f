import Rdmas.Soundness.ConnectorCompletions
import Rdmas.Soundness.ConnectorEviction

/-! # Reads and recency

A set records an access for each of its pairs, a get records none. The tracker therefore orders keys by
their last set, and an eviction takes the keys that were set longest ago, however recently they were read.
Whether this ever takes a key that was used later than one it leaves depends on the reads around the cut.
-/

namespace Rdmas.Soundness

open Rdmas.Model LittleEndian Runs Ranking RdmaNativeConnector

/-- How a key was accessed. -/
inductive CacheUse where
  | get (found : Bool)
  | set
deriving DecidableEq, Repr

structure CacheAccess where
  keyHash : BitVec 64
  time : ℕ
  use : CacheUse
deriving DecidableEq, Repr

/-- The key was found by a get, or handed to a set. -/
def CacheAccess.isUse (access : CacheAccess) : Bool := access.use != .get false

/-- The clock readings do not decrease. -/
def Chronological (accesses : List CacheAccess) : Prop :=
  (accesses.map CacheAccess.time).Pairwise (· ≤ ·)

/-- The time of the last set of a key. -/
def lastSet (accesses : List CacheAccess) (key : BitVec 64) : ℕ :=
  accesses.foldl (fun latest access =>
    if access.use = .set ∧ access.keyHash = key then access.time else latest) 0

/-- Batches, with the time at which each key is accessed and the iteration order of an eviction. -/
inductive CacheOp where
  | get (keys : List Bytes) (clock : ℕ → ℕ)
  | set (keys mvs : List Bytes) (clock : ℕ → ℕ)
      (iterate : AccessOrder)

/-- A batch meets the entries of the map in some order, each of them once. -/
def CacheOp.Iterates : CacheOp → Prop
  | .get _ _ => True
  | .set _ _ _ iterate => ∀ list, (iterate list).Perm list

/-- A connector with the history of its tracker and the accesses of its run. -/
structure CacheRun where
  connector : RdmaNativeConnector
  events : List LruEvent
  accesses : List CacheAccess

namespace CacheRun

def create (bucketCount maxKick regionSize watermark : ℕ)
    (powerOfTwo : bucketCount.isPowerOfTwo) : CacheRun :=
  ⟨.create bucketCount maxKick regionSize watermark powerOfTwo, [], []⟩

variable (xxh64 : Xxh64)

/-- The records of a set, from the index at which its clock stands. -/
def setEvents (clock : ℕ → ℕ) (start : ℕ) (pairs : List (Bytes × Bytes)) : List LruEvent :=
  (pairs.zipIdx start).map fun item =>
    .recorded (hashLmcacheKey xxh64 item.1.1).hash (clock item.2)

def setAccesses (clock : ℕ → ℕ) (start : ℕ) (pairs : List (Bytes × Bytes)) : List CacheAccess :=
  (pairs.zipIdx start).map fun item =>
    ⟨(hashLmcacheKey xxh64 item.1.1).hash, clock item.2, .set⟩

def getAccesses (table : CuckooTable) (clock : ℕ → ℕ) (keys : List Bytes) : List CacheAccess :=
  keys.zipIdx.map fun item => ⟨(hashLmcacheKey xxh64 item.1).hash, clock item.2,
    .get (table.lookup (hashLmcacheKey xxh64 item.1)).isSome⟩

/-- The connector on which a set selects candidates for eviction, if it comes to that. -/
def evicting (connector : RdmaNativeConnector) (keys mvs : List Bytes) (clock : ℕ → ℕ) :
    Option RdmaNativeConnector :=
  let first := connector.counted.setAll xxh64 (keys.zip mvs) clock
  if !connector.poisoned && first.evictionNeeded && first.connector.lru.needsEviction then
    some first.connector
  else none

/-- A batch on poisoned locks panics before it does anything. -/
def step (state : CacheRun) : CacheOp → Option CacheRun
  | .get keys clock => some { state with
      connector := (state.connector.submitBatchGet xxh64 keys).1
      accesses := state.accesses ++
        if state.connector.poisoned then []
        else getAccesses xxh64 state.connector.table clock keys }
  | .set keys mvs clock iterate => some {
      connector := (state.connector.submitBatchSet xxh64 keys mvs clock iterate).1
      events := state.events ++
        (if state.connector.poisoned then [] else setEvents xxh64 clock 0 (keys.zip mvs)) ++
        (evicting xxh64 state.connector keys mvs clock).toList.map fun connector =>
          .selected (evictionCandidates connector iterate)
      accesses := state.accesses ++
        if state.connector.poisoned then [] else setAccesses xxh64 clock 0 (keys.zip mvs) }

end CacheRun

/-- No selected key was used at a later time than every access of a tracked key that is left. -/
def KeepsRecentlyUsed (accesses : List CacheAccess) (tracked : Finset (BitVec 64))
    (selected : List (BitVec 64)) : Prop :=
  ∀ victim ∈ selected, ∀ kept ∈ tracked, kept ∉ selected →
    ∀ access ∈ accesses, access.keyHash = victim → access.isUse = true →
      ∃ other ∈ accesses, other.keyHash = kept ∧ access.time ≤ other.time

/-- A get found the first key later than every access of the second. -/
def ReadLater (accesses : List CacheAccess) (hot cold : BitVec 64) : Prop :=
  ∃ access ∈ accesses, access.keyHash = hot ∧ access.use = .get true ∧
    ∀ other ∈ accesses, other.keyHash = cold → other.time < access.time

/-- Where a read has made one tracked key more recent than another, the cut after the `n` keys set longest
ago does not fall between them. -/
def ReadsRespectCut (accesses : List CacheAccess) (tracked : Finset (BitVec 64)) (n : ℕ) : Prop :=
  ∀ hot ∈ tracked, ∀ cold ∈ tracked, ReadLater accesses hot cold →
    n ≤ (tracked.filter fun key => lastSet accesses key < lastSet accesses hot).card ∨
      (tracked.filter fun key => lastSet accesses key ≤ lastSet accesses cold).card ≤ n

instance (accesses : List CacheAccess) : Decidable (Chronological accesses) := by
  unfold Chronological
  infer_instance

instance (accesses : List CacheAccess) (hot cold : BitVec 64) : Decidable (ReadLater accesses hot cold) := by
  unfold ReadLater
  infer_instance

section Times

variable {accesses : List CacheAccess} {key : BitVec 64}

private theorem lastSet_append (accesses : List CacheAccess) (access : CacheAccess) (key : BitVec 64) :
    lastSet (accesses ++ [access]) key =
      if access.use = .set ∧ access.keyHash = key then access.time else lastSet accesses key := by
  rw [lastSet, List.foldl_append]
  rfl

/-- The last set of a key is one of its accesses. -/
theorem exists_lastSet {access : CacheAccess} (member : access ∈ accesses) (sets : access.use = .set) :
    ∃ last ∈ accesses, last.keyHash = access.keyHash ∧ last.use = .set ∧
      last.time = lastSet accesses access.keyHash := by
  induction accesses using List.reverseRecOn with
  | nil => exact absurd member List.not_mem_nil
  | append_singleton earlier latest ih =>
    rw [lastSet_append]
    by_cases own : latest.use = .set ∧ latest.keyHash = access.keyHash
    · rw [if_pos own]
      exact ⟨latest, List.mem_append_right _ (List.mem_singleton_self _), own.2, own.1, rfl⟩
    · rw [if_neg own]
      rcases List.mem_append.mp member with old | new
      · obtain ⟨last, lastIn, same⟩ := ih old
        exact ⟨last, List.mem_append_left _ lastIn, same⟩
      · obtain rfl := List.mem_singleton.mp new
        exact absurd ⟨sets, rfl⟩ own

/-- With readings that do not decrease, no set of a key is later than its last one. -/
theorem time_le_lastSet (ordered : Chronological accesses) {access : CacheAccess}
    (member : access ∈ accesses) (sets : access.use = .set) :
    access.time ≤ lastSet accesses access.keyHash := by
  induction accesses using List.reverseRecOn with
  | nil => exact absurd member List.not_mem_nil
  | append_singleton earlier latest ih =>
    rw [Chronological, List.map_append, List.pairwise_append] at ordered
    rw [lastSet_append]
    rcases List.mem_append.mp member with old | new
    · split
      · exact ordered.2.2 _ (List.mem_map_of_mem old) _ (List.mem_singleton_self _)
      · exact ih ordered.1 old
    · obtain rfl := List.mem_singleton.mp new
      rw [if_pos ⟨sets, rfl⟩]

end Times

section Tracking

variable {xxh64 : Xxh64} {lru : LruTracker} {events : List LruEvent}
variable {accesses : List CacheAccess}

/-- The tracker remembers the sets of a run, and only those. -/
structure TracksSets (lru : LruTracker) (events : List LruEvent) (accesses : List CacheAccess) : Prop where
  remembers : Remembers ⟨lru, events⟩
  latest : ∀ key, latestAccess events key = lastSet accesses key
  written : ∀ key ∈ trackedKeys events, ∃ access ∈ accesses, access.keyHash = key ∧ access.use = .set

namespace TracksSets

variable (tracks : TracksSets lru events accesses)
include tracks

theorem recordAccess (keyHash : BitVec 64) (now : ℕ) :
    TracksSets (lru.recordAccess keyHash now) (events ++ [.recorded keyHash now])
      (accesses ++ [⟨keyHash, now, .set⟩]) := by
  refine ⟨tracks.remembers.recordAccess keyHash now, fun key => ?_, fun key member => ?_⟩
  · rw [latestAccess_recorded, lastSet_append, tracks.latest]
    simp
  · rw [trackedKeys_recorded, Finset.mem_insert] at member
    rcases member with rfl | old
    · exact ⟨_, List.mem_append_right _ (List.mem_singleton_self _), rfl, rfl⟩
    · obtain ⟨access, listed, same⟩ := tracks.written key old
      exact ⟨access, List.mem_append_left _ listed, same⟩

/-- A get is no event for the tracker. -/
theorem read (access : CacheAccess)
    (reads : access.use ≠ .set) : TracksSets lru events (accesses ++ [access]) := by
  refine ⟨tracks.remembers, fun key => ?_, fun key member => ?_⟩
  · rw [lastSet_append, if_neg fun own => reads own.1, tracks.latest]
  · obtain ⟨other, listed, same⟩ := tracks.written key member
    exact ⟨other, List.mem_append_left _ listed, same⟩

theorem reads {more : List CacheAccess}
    (reads : ∀ access ∈ more, access.use ≠ .set) : TracksSets lru events (accesses ++ more) := by
  induction more generalizing accesses with
  | nil => rwa [List.append_nil]
  | cons access more ih =>
    obtain ⟨first, rest⟩ := List.forall_mem_cons.mp reads
    rw [List.append_cons]
    exact ih (tracks.read access first) rest

theorem select {iterate : AccessOrder} (order : ∀ list, (iterate list).Perm list) (n : ℕ) :
    TracksSets (lru.selectEvictionCandidates iterate n).1
      (events ++ [.selected (lru.selectEvictionCandidates iterate n).2]) accesses := by
  refine ⟨tracks.remembers.select order n, fun key => ?_, fun key member => ?_⟩
  · rw [latestAccess_selected, tracks.latest]
  · rw [trackedKeys_selected, Finset.mem_sdiff] at member
    exact tracks.written key member.1

end TracksSets

/-- The first loop of a set. -/
theorem TracksSets.setAll {connector : RdmaNativeConnector}
    (tracks : TracksSets connector.lru events accesses) (pairs : List (Bytes × Bytes)) (clock : ℕ → ℕ) :
    TracksSets (connector.setAll xxh64 pairs clock).connector.lru
      (events ++ CacheRun.setEvents xxh64 clock 0 pairs)
      (accesses ++ CacheRun.setAccesses xxh64 clock 0 pairs) := by
  have loop : ∀ (progress : SetProgress) (events : List LruEvent)
      (accesses : List CacheAccess), TracksSets progress.connector.lru events accesses →
      TracksSets (pairs.foldl (setOne xxh64 clock) progress).connector.lru
        (events ++ CacheRun.setEvents xxh64 clock progress.results.length pairs)
        (accesses ++ CacheRun.setAccesses xxh64 clock progress.results.length pairs) := by
    induction pairs with
    | nil =>
      intro progress events accesses tracks
      simpa only [CacheRun.setEvents, CacheRun.setAccesses, List.zipIdx_nil, List.map_nil,
        List.append_nil, List.foldl_nil] using tracks
    | cons pair pairs ih =>
      intro progress events accesses tracks
      have first := tracks.recordAccess (hashLmcacheKey xxh64 pair.1).hash (clock progress.results.length)
      rw [← lru_setOne] at first
      have onward := ih _ _ _ first
      rw [(setOne_part (fun _ _ _ => rfl) lru_insertLarge clock progress pair).2] at onward
      simpa only [CacheRun.setEvents, CacheRun.setAccesses, List.zipIdx_cons, List.map_cons,
        List.append_assoc, List.singleton_append, List.foldl_cons] using onward
  exact loop ⟨connector, [], false⟩ events accesses tracks

/-- An eviction, if one is needed. -/
theorem TracksSets.evict {connector : RdmaNativeConnector}
    (tracks : TracksSets connector.lru events accesses)
    {iterate : AccessOrder} (order : ∀ list, (iterate list).Perm list)
    (needed : connector.lru.needsEviction = true) :
    TracksSets (connector.evictIfNeeded iterate).lru
      (events ++ [.selected (evictionCandidates connector iterate)]) accesses := by
  have selects := tracks.select order (max (connector.lru.keyCount / 10) 1)
  simp only [evictIfNeeded, evictionCandidates, needed, Bool.not_true,
    Bool.false_eq_true, if_false, if_true]
  split
  · exact selects
  · exact ⟨⟨selects.remembers.distinct, selects.remembers.merged⟩, selects.latest, selects.written⟩

/-- What a set does to the tracker. -/
theorem lru_submitBatchSet (connector : RdmaNativeConnector) (keys mvs : List Bytes) (clock : ℕ → ℕ)
    (iterate : AccessOrder) :
    (connector.submitBatchSet xxh64 keys mvs clock iterate).1.lru =
      if connector.poisoned then connector.lru
      else
        let first := connector.counted.setAll xxh64 (keys.zip mvs) clock
        if first.evictionNeeded then (first.connector.evictIfNeeded iterate).lru
        else first.connector.lru := by
  simp only [submitBatchSet]
  split
  · rfl
  · generalize setAll xxh64 _ (keys.zip mvs) clock = first
    split
    · split
      all_goals exact lru_retryFailed _ _
    · rfl

theorem TracksSets.step {state next : CacheRun} {op : CacheOp}
    (tracks : TracksSets state.connector.lru state.events state.accesses) (iterates : op.Iterates)
    (taken : state.step xxh64 op = some next) :
    TracksSets next.connector.lru next.events next.accesses := by
  cases op with
  | get keys clock =>
    cases taken
    have same : (state.connector.submitBatchGet xxh64 keys).1.lru = state.connector.lru := by
      simp only [submitBatchGet, submitBatchExists]
      split <;> rfl
    simp only [same]
    refine tracks.reads fun access member => ?_
    split at member
    · exact absurd member List.not_mem_nil
    · obtain ⟨item, _, rfl⟩ := List.mem_map.mp member
      simp
  | set keys mvs clock iterate =>
    cases taken
    simp only [lru_submitBatchSet, CacheRun.evicting]
    by_cases locks : state.connector.poisoned = true
    · simpa only [locks, if_true, Bool.not_true, Bool.false_and, Bool.false_eq_true, if_false,
        Option.toList_none, List.map_nil, List.append_nil] using tracks
    · rw [Bool.not_eq_true] at locks
      have first := @TracksSets.setAll xxh64 _ _ state.connector.counted tracks (keys.zip mvs) clock
      simp only [locks, Bool.false_eq_true, if_false, Bool.not_false, Bool.true_and] at first ⊢
      generalize RdmaNativeConnector.setAll xxh64 _ (keys.zip mvs) clock = loop at first ⊢
      cases failed : loop.evictionNeeded with
      | false => simpa using first
      | true =>
        cases needed : loop.connector.lru.needsEviction with
        | true =>
          simpa only [if_true, Bool.true_and, Option.toList_some, List.map_singleton] using
            first.evict iterates needed
        | false =>
          have idle : loop.connector.evictIfNeeded iterate = loop.connector := by
            rw [evictIfNeeded, needed]
            rfl
          simpa [idle] using first

theorem TracksSets.run {state final : CacheRun} {ops : List CacheOp}
    (tracks : TracksSets state.connector.lru state.events state.accesses)
    (iterates : ∀ op ∈ ops, op.Iterates) (reached : Runs.run (CacheRun.step xxh64) state ops = some final) :
    TracksSets final.connector.lru final.events final.accesses := by
  induction ops generalizing state with
  | nil =>
    cases reached
    exact tracks
  | cons op ops ih =>
    obtain ⟨next, taken, onward⟩ := run_cons_eq_some.mp reached
    obtain ⟨first, rest⟩ := List.forall_mem_cons.mp iterates
    exact ih (tracks.step first taken) rest onward

private theorem tracksSets_create (bucketCount maxKick regionSize watermark : ℕ)
    (powerOfTwo : bucketCount.isPowerOfTwo) :
    TracksSets (CacheRun.create bucketCount maxKick regionSize watermark powerOfTwo).connector.lru [] [] :=
  ⟨remembers_new watermark, fun _ => rfl, fun _ member => absurd member (Finset.notMem_empty _)⟩

/-- How many tracked keys have their last set in a range. -/
theorem TracksSets.countP_eq (tracks : TracksSets lru events accesses) (within : ℕ → Prop)
    [DecidablePred within] :
    (mergedAccesses lru).countP (fun entry => within entry.2) =
      ((trackedKeys events).filter fun key => within (lastSet accesses key)).card := by
  have merged := @Remembers.merged _ tracks.remembers
  have distinct : ((mergedAccesses lru).map Prod.fst).Nodup := nodup_merged tracks.remembers.distinct
  have keys : (((mergedAccesses lru).filter fun entry => within entry.2).map Prod.fst).toFinset =
      (trackedKeys events).filter fun key => within (lastSet accesses key) := by
    ext key
    simp only [List.mem_toFinset, List.mem_map, List.mem_filter, decide_eq_true_eq, Prod.exists,
      exists_and_right, exists_eq_right, merged, Finset.mem_filter, tracks.latest]
    constructor
    · rintro ⟨time, ⟨tracked, rfl⟩, inside⟩
      exact ⟨tracked, inside⟩
    · rintro ⟨tracked, inside⟩
      exact ⟨_, ⟨tracked, rfl⟩, inside⟩
  rw [← keys, List.toFinset_card_of_nodup (distinct.sublist (List.filter_sublist.map _)), List.length_map,
    List.countP_eq_length_filter]

/-- The map may be iterated in any order, and the sort leaves a ranked one as it is. -/
theorem exists_iterate {order : List (BitVec 64 × ℕ)} (perm : order.Perm (mergedAccesses lru))
    (ranked : order.Pairwise fun left right => left.2 ≤ right.2) :
    ∃ iterate : AccessOrder, (∀ list, (iterate list).Perm list) ∧
      evictionOrder lru iterate = order := by
  refine ⟨fun list => if list = mergedAccesses lru then order else list, fun list => ?_, ?_⟩
  · beta_reduce
    by_cases same : list = mergedAccesses lru
    · rw [if_pos same, same]
      exact perm
    · rw [if_neg same]
  · rw [evictionOrder, if_pos rfl]
    exact List.Pairwise.insertionSort_eq ranked

/-- Where a read crosses the cut, some iteration order evicts the key that was read. -/
theorem TracksSets.readsRespectCut (tracks : TracksSets lru events accesses) {n : ℕ}
    (keeps : ∀ iterate : AccessOrder, (∀ list, (iterate list).Perm list) →
      KeepsRecentlyUsed accesses (trackedKeys events) (lru.selectEvictionCandidates iterate n).2) :
    ReadsRespectCut accesses (trackedKeys events) n := by
  have merged := @Remembers.merged _ tracks.remembers
  have distinct := tracks.remembers.distinct
  rintro hot hotIn cold coldIn ⟨access, listed, own, reads, later⟩
  by_contra cut
  rw [not_or, Nat.not_le, Nat.not_le, ← tracks.countP_eq (· < lastSet accesses hot),
    ← tracks.countP_eq (· ≤ lastSet accesses cold)] at cut
  have entries : (mergedAccesses lru).Nodup := (nodup_merged distinct).of_map
  have hotEntry := merged.mpr ⟨hotIn, tracks.latest hot⟩
  have coldEntry := merged.mpr ⟨coldIn, tracks.latest cold⟩
  have differ : (hot, lastSet accesses hot) ≠ (cold, lastSet accesses cold) := by
    intro same
    have later := later access listed (own.trans (congrArg Prod.fst same))
    exact Nat.lt_irrefl _ later
  obtain ⟨order, perm, ranked, front, back⟩ :=
    @exists_ranked _ Prod.snd _ n _ _ _ entries differ hotEntry coldEntry cut.1 cut.2
  obtain ⟨iterate, iterates, sorted⟩ := exists_iterate perm ranked
  rw [← sorted] at front back
  have handed := (select_spec distinct iterates n).1
  have hotOut : hot ∈ (lru.selectEvictionCandidates iterate n).2 := by
    rw [handed]
    exact List.mem_map_of_mem front
  have coldLeft : cold ∉ (lru.selectEvictionCandidates iterate n).2 := by
    rw [handed]
    exact ((mem_drop_evictionOrder distinct iterates).mp back).2
  have used : access.isUse = true := by simp [CacheAccess.isUse, reads]
  obtain ⟨other, otherIn, same, notLater⟩ :=
    keeps iterate iterates hot hotOut cold coldIn coldLeft access listed own used
  exact absurd (later other otherIn same) (Nat.not_lt.mpr notLater)

/-- Where the reads respect the cut, no key is evicted for one that was used before it. -/
theorem TracksSets.keepsRecentlyUsed (tracks : TracksSets lru events accesses)
    (ordered : Chronological accesses) {n : ℕ} (respect : ReadsRespectCut accesses (trackedKeys events) n)
    {iterate : AccessOrder} (order : ∀ list, (iterate list).Perm list) :
    KeepsRecentlyUsed accesses (trackedKeys events) (lru.selectEvictionCandidates iterate n).2 := by
  have merged := @Remembers.merged _ tracks.remembers
  have distinct := tracks.remembers.distinct
  intro victim selected kept keptIn left access listed own used
  by_contra nobody
  have later : ∀ other ∈ accesses, other.keyHash = kept → other.time < access.time := by
    intro other otherIn same
    by_contra notLater
    exact nobody ⟨other, otherIn, same, Nat.not_lt.mp notLater⟩
  rw [(select_spec distinct order n).1] at selected left
  obtain ⟨entry, front, rfl⟩ := List.mem_map.mp selected
  have entryIn := (evictionOrder_perm order).mem_iff.mp (List.mem_of_mem_take front)
  obtain ⟨victimIn, time⟩ := merged.mp entryIn
  have back : (kept, lastSet accesses kept) ∈ (evictionOrder lru iterate).drop n :=
    (mem_drop_evictionOrder distinct order).mpr ⟨merged.mpr ⟨keptIn, tracks.latest kept⟩, left⟩
  have older : entry.2 ≤ lastSet accesses kept := evictionOrder_ranked.le_of_cut front back
  have few : (mergedAccesses lru).countP (fun other => other.2 < entry.2) < n := by
    rw [← (evictionOrder_perm order).countP_eq]
    exact evictionOrder_ranked.countP_lt front
  have many : n < (mergedAccesses lru).countP (fun other => other.2 ≤ lastSet accesses kept) := by
    rw [← (evictionOrder_perm order).countP_eq]
    exact evictionOrder_ranked.lt_countP back
  rw [tracks.latest] at time
  cases use : access.use with
  | set =>
    -- A set of the victim is no later than its last one, nor than the last one of the kept key.
    obtain ⟨write, writeIn, sameKey, sets⟩ := tracks.written kept keptIn
    obtain ⟨last, lastIn, lastKey, _, lastTime⟩ := exists_lastSet writeIn sets
    have before := later last lastIn (lastKey.trans sameKey)
    have bound := time_le_lastSet ordered listed use
    rw [own, time] at bound
    rw [lastTime, sameKey] at before
    omega
  | get found =>
    have hit : found = true := by
      cases found with
      | true => rfl
      | false => simp [CacheAccess.isUse, use] at used
    have cut := respect entry.1 victimIn kept keptIn ⟨access, listed, own, hit ▸ use, later⟩
    rw [← tracks.countP_eq (· < lastSet accesses entry.1), time,
      ← tracks.countP_eq (· ≤ lastSet accesses kept)] at cut
    omega

/-- An eviction keeps what was used recently, whatever order it meets, exactly if the reads respect its
cut. -/
theorem TracksSets.keepsRecentlyUsed_iff (tracks : TracksSets lru events accesses)
    (ordered : Chronological accesses) (n : ℕ) :
    (∀ iterate : AccessOrder, (∀ list, (iterate list).Perm list) →
      KeepsRecentlyUsed accesses (trackedKeys events) (lru.selectEvictionCandidates iterate n).2) ↔
      ReadsRespectCut accesses (trackedKeys events) n :=
  ⟨tracks.readsRespectCut, fun respect _ order => tracks.keepsRecentlyUsed ordered respect order⟩

end Tracking

/-- Whenever a set of a run evicts, it takes no key that was used later than every access of a tracked key
it leaves, in whatever order the map is iterated, exactly if no read has made a key on the near side of the
cut more recent than one on the far side. -/
theorem cache_reads_count_as_use_iff (xxh64 : Xxh64) {bucketCount : ℕ}
    (maxKick regionSize watermark : ℕ) (powerOfTwo : bucketCount.isPowerOfTwo)
    {ops : List CacheOp} {state : CacheRun} (iterates : ∀ op ∈ ops, op.Iterates)
    (reached : run (CacheRun.step xxh64)
      (.create bucketCount maxKick regionSize watermark powerOfTwo) ops = some state)
    {keys mvs : List Bytes} {clock : ℕ → ℕ} {connector : RdmaNativeConnector}
    (evicts : CacheRun.evicting xxh64 state.connector keys mvs clock = some connector)
    (ordered : Chronological (state.accesses ++ CacheRun.setAccesses xxh64 clock 0 (keys.zip mvs))) :
    (∀ iterate, (∀ list, (iterate list).Perm list) →
      KeepsRecentlyUsed (state.accesses ++ CacheRun.setAccesses xxh64 clock 0 (keys.zip mvs))
        (trackedKeys (state.events ++ CacheRun.setEvents xxh64 clock 0 (keys.zip mvs)))
        (evictionCandidates connector iterate)) ↔
      ReadsRespectCut (state.accesses ++ CacheRun.setAccesses xxh64 clock 0 (keys.zip mvs))
        (trackedKeys (state.events ++ CacheRun.setEvents xxh64 clock 0 (keys.zip mvs)))
        (max (connector.lru.keyCount / 10) 1) := by
  have start := tracksSets_create bucketCount maxKick regionSize watermark powerOfTwo
  have tracks := start.run iterates reached
  simp only [CacheRun.evicting, Option.ite_none_right_eq_some, Option.some.injEq, Bool.and_eq_true] at evicts
  obtain ⟨⟨_, needed⟩, rfl⟩ := evicts
  have first := @TracksSets.setAll xxh64 _ _ state.connector.counted tracks (keys.zip mvs) clock
  simp only [evictionCandidates, needed, if_true]
  exact first.keepsRecentlyUsed_iff ordered _

/-- A hash that tells keys apart by their length. -/
def lengthHash : Xxh64 := fun key _ => BitVec.ofNat 64 (key.length + 1)

/-- A value for which a region without a byte has no room. -/
def tooLarge : Bytes := List.replicate 33 0

/-- The second of two keys is set later than the first and read later still. A set of a third key then takes
the first. -/
def lateRead : List CacheOp :=
  [.set [[0]] [[7]] (fun _ => 1) id, .set [[0, 0]] [[7]] (fun _ => 2) id, .get [[0, 0]] fun _ => 3]

theorem cache_keeps_key_just_read : ∃ state connector,
    run (CacheRun.step lengthHash) (.create 4 16 0 0 ⟨2, rfl⟩) lateRead = some state ∧
      CacheRun.evicting lengthHash state.connector [[0, 0, 0]] [tooLarge] (fun _ => 4) = some connector ∧
      ∀ iterate, (∀ list, (iterate list).Perm list) →
        KeepsRecentlyUsed (state.accesses ++ CacheRun.setAccesses lengthHash (fun _ => 4) 0
            [([0, 0, 0], tooLarge)])
          (trackedKeys (state.events ++ CacheRun.setEvents lengthHash (fun _ => 4) 0
            [([0, 0, 0], tooLarge)]))
          (evictionCandidates connector iterate) := by
  have runs : (run (CacheRun.step lengthHash) (.create 4 16 0 0 ⟨2, rfl⟩) lateRead).any fun state =>
      (CacheRun.evicting lengthHash state.connector [[0, 0, 0]] [tooLarge] fun _ => 4).any fun connector =>
        decide (state.accesses = [⟨2, 1, .set⟩, ⟨3, 2, .set⟩, ⟨3, 3, .get true⟩] ∧
          state.events = [.recorded 2 1, .recorded 3 2] ∧ connector.lru.keyCount = 3) := by
    decide +kernel
  obtain ⟨state, reached, found⟩ := (Option.any_eq_true _ _).mp runs
  obtain ⟨connector, evicts, checked⟩ := (Option.any_eq_true _ _).mp found
  obtain ⟨accesses, events, count⟩ := of_decide_eq_true checked
  have ordered : Chronological (state.accesses ++ CacheRun.setAccesses lengthHash (fun _ => 4) 0
      [([0, 0, 0], tooLarge)]) := by
    rw [accesses]
    decide
  have respect : ReadsRespectCut (state.accesses ++ CacheRun.setAccesses lengthHash (fun _ => 4) 0
        [([0, 0, 0], tooLarge)])
      (trackedKeys (state.events ++ CacheRun.setEvents lengthHash (fun _ => 4) 0
        [([0, 0, 0], tooLarge)])) (max (connector.lru.keyCount / 10) 1) := by
    rw [accesses, events, count]
    have tracked : trackedKeys ([.recorded 2 1, .recorded 3 2] ++
      CacheRun.setEvents lengthHash (fun _ => 4) 0 [([0, 0, 0], tooLarge)]) = {4, 3, 2} := rfl
    rw [tracked]
    intro hot hotIn cold coldIn reads
    simp only [Finset.mem_insert, Finset.mem_singleton] at hotIn coldIn
    rcases hotIn with rfl | rfl | rfl <;> rcases coldIn with rfl | rfl | rfl <;> revert reads <;> decide
  have iterates : ∀ op ∈ lateRead, op.Iterates := by simp [lateRead, CacheOp.Iterates]
  exact ⟨state, connector, reached, evicts,
    (cache_reads_count_as_use_iff lengthHash 16 0 0 ⟨2, rfl⟩ iterates reached evicts ordered).mpr respect⟩

section QuietBatches

variable {xxh64 : Xxh64} {connector : RdmaNativeConnector}
variable {keys mvs : List Bytes} {clock : ℕ → ℕ}
variable {iterate : AccessOrder}

/-- As long as the watermark is not passed, no batch evicts. -/
theorem needsEviction_setAll (idle : connector.lru.keyCount + (keys.zip mvs).length ≤
      connector.lru.watermark) :
    (setAll xxh64 connector.counted (keys.zip mvs) clock).connector.lru.needsEviction = false := by
  obtain ⟨_, count, mark⟩ := @lru_setAll xxh64 connector.counted (keys.zip mvs) clock
  rw [LruTracker.needsEviction, count, mark]
  simpa using idle

private theorem evictIfNeeded_idle (idle : connector.lru.needsEviction = false) :
    connector.evictIfNeeded iterate = connector := by
  rw [evictIfNeeded, idle]
  rfl

theorem evicting_idle (idle : connector.lru.keyCount + (keys.zip mvs).length ≤ connector.lru.watermark) :
    CacheRun.evicting xxh64 connector keys mvs clock = none := by
  simp only [CacheRun.evicting]
  rw [needsEviction_setAll idle, Bool.and_false]
  rfl

/-- A set that evicts nothing and has a memoryview for each key only adds its records. -/
theorem quiet_set {state next : CacheRun} (locks : state.connector.poisoned = false)
    (enough : keys.length ≤ mvs.length)
    (idle : state.connector.lru.keyCount + (keys.zip mvs).length ≤ state.connector.lru.watermark)
    (taken : state.step xxh64 (.set keys mvs clock iterate) = some next) :
    next.connector.poisoned = false ∧
      next.connector.lru.keyCount = state.connector.lru.keyCount + (keys.zip mvs).length ∧
      next.connector.lru.watermark = state.connector.lru.watermark ∧
      next.events = state.events ++ CacheRun.setEvents xxh64 clock 0 (keys.zip mvs) ∧
      next.accesses = state.accesses ++ CacheRun.setAccesses xxh64 clock 0 (keys.zip mvs) := by
  cases taken
  have calm := @needsEviction_setAll xxh64 _ keys mvs clock idle
  obtain ⟨_, count, mark⟩ := @lru_setAll xxh64 state.connector.counted (keys.zip mvs) clock
  have same : (state.connector.submitBatchSet xxh64 keys mvs clock iterate).1.lru =
      (setAll xxh64 state.connector.counted (keys.zip mvs) clock).connector.lru := by
    rw [lru_submitBatchSet, if_neg (Bool.eq_false_iff.mp locks)]
    simp only [evictIfNeeded_idle calm, ite_self]
  obtain ⟨results, _, panics, holds⟩ :=
    @submitBatchSet_answers xxh64 state.connector keys mvs clock iterate
  refine ⟨?_, ?_, ?_, ?_, ?_⟩
  · cases results with
    | none =>
      rcases panics rfl with poisoned | missing
      · rw [locks] at poisoned
        cases poisoned
      · omega
    | some list => exact (holds list rfl).2.1
  · exact (congrArg LruTracker.keyCount same).trans count
  · exact (congrArg LruTracker.watermark same).trans mark
  · simp [evicting_idle idle, locks]
  · simp [locks]

/-- A region without a byte takes nothing. -/
theorem allocate_nothing (data : Bytes) : (LargeObjectRegion.new 0).allocate data = (.new 0, none) := by
  have exceeds : (LargeObjectRegion.new 0).nextOffset + extentTotal data.length >
      (LargeObjectRegion.new 0).size := by
    rw [extentTotal_eq]
    change 0 + _ > 0
    omega
  simp only [LargeObjectRegion.allocate]
  rw [if_pos exceeds]
  rfl

private theorem run_refused {store : Store} (region : store.largeObjects = .new 0) {ops : List StoreOp}
    (extents : ∀ op ∈ ops, ∃ key data, op = .extent key data) :
    Runs.run Store.step store ops = some store := by
  induction ops with
  | nil => rfl
  | cons op ops ih =>
    obtain ⟨⟨key, data, rfl⟩, rest⟩ := List.forall_mem_cons.mp extents
    have unchanged : store.apply (.extent key data) = store := by
      simp only [Store.apply, region, allocate_nothing]
      rw [← region]
    refine run_cons_eq_some.mpr ⟨store, ?_, ih rest⟩
    rw [Store.step, unchanged]

private theorem mem_retryOps {pairs : List (Bytes × Bytes)} {results : List Bool} {op : StoreOp}
    (member : op ∈ ConnectorOp.retryOps xxh64 pairs results) : ∃ key data, op = .extent key data := by
  induction pairs generalizing results with
  | nil => exact absurd member List.not_mem_nil
  | cons pair pairs ih =>
    cases results with
    | nil => exact absurd member List.not_mem_nil
    | cons ok results =>
      rw [ConnectorOp.retryOps] at member
      split at member
      · exact ih member
      · rcases List.mem_cons.mp member with rfl | later
        · exact ⟨_, _, rfl⟩
        · exact ih later

/-- A set of values that find no room leaves the store as it is. -/
theorem storeOf_refused (region : connector.largeObjects = .new 0)
    (long : ∀ pair ∈ keys.zip mvs, 32 < pair.2.length)
    (idle : connector.lru.keyCount + (keys.zip mvs).length ≤ connector.lru.watermark) :
    storeOf (connector.submitBatchSet xxh64 keys mvs clock iterate).1 = storeOf connector := by
  have traced := @ConnectorOp.run_trace xxh64 connector (.batchSet keys mvs clock iterate)
  rw [run_refused region] at traced
  · exact (Option.some.inj traced).symm
  · intro op member
    simp only [ConnectorOp.trace] at member
    split at member
    · exact absurd member List.not_mem_nil
    · rcases List.mem_append.mp member with first | later
      · obtain ⟨pair, given, rfl⟩ := List.mem_map.mp first
        rw [ConnectorOp.pairOp, if_neg (Nat.not_le.mpr (long pair given))]
        exact ⟨_, _, rfl⟩
      · split at later
        · rw [ConnectorOp.evictOps, needsEviction_setAll idle] at later
          exact mem_retryOps later
        · exact absurd later List.not_mem_nil

/-- At the watermark, a set of one value that finds no room evicts. -/
theorem evicting_refused {key data : Bytes} (locks : connector.poisoned = false)
    (region : connector.largeObjects = .new 0) (long : 32 < data.length)
    (full : connector.lru.watermark ≤ connector.lru.keyCount) :
    ∃ last, CacheRun.evicting xxh64 connector [key] [data] clock = some last ∧
      last = (setAll xxh64 connector.counted [(key, data)] clock).connector ∧
      last.lru.keyCount = connector.lru.keyCount + 1 ∧ last.lru.needsEviction = true := by
  obtain ⟨first, loop⟩ : ∃ first, setAll xxh64 connector.counted [(key, data)] clock = first := ⟨_, rfl⟩
  have refused : first.evictionNeeded = true := by
    rw [← loop, setAll, List.foldl_cons, List.foldl_nil]
    exact evictionNeeded_of_refused long (region ▸ allocate_nothing data)
  obtain ⟨_, count, mark⟩ := @lru_setAll xxh64 connector.counted [(key, data)] clock
  rw [loop] at count mark
  have needed : first.connector.lru.needsEviction = true := by
    rw [LruTracker.needsEviction, count, mark]
    simpa using Nat.lt_succ_of_le full
  refine ⟨first.connector, ?_, by rw [loop], count, needed⟩
  simp only [CacheRun.evicting, List.zip_cons_cons, List.zip_nil_left, loop, refused, needed]
  rw [locks]
  rfl

end QuietBatches

section HotRead

/-- Keys that are set once. -/
def coldKeys : List Bytes := (List.range 999).map fun index => List.replicate (index + 2) 0

/-- A key is set, other keys are set after it, and then the key is read. -/
def hotRead : List CacheOp :=
  [.set [[0]] [[7]] (fun _ => 1) id, .set coldKeys (coldKeys.map fun _ => tooLarge) (fun _ => 2) id,
    .get [[0]] fun _ => 3]

/-- The sets of the run, and of the batch behind it. -/
def hotReadRecords : List (BitVec 64 × ℕ) :=
  (2, 1) :: (List.range 999).map (fun index => (BitVec.ofNat 64 (index + 3), 2))

private theorem setEvents_const (xxh64 : Xxh64) (now start : ℕ) (pairs : List (Bytes × Bytes)) :
    CacheRun.setEvents xxh64 (fun _ => now) start pairs =
      pairs.map fun pair => .recorded (hashLmcacheKey xxh64 pair.1).hash now := by
  induction pairs generalizing start with
  | nil => rfl
  | cons pair pairs ih => exact congrArg (_ :: ·) (ih (start + 1))

private theorem setAccesses_const (xxh64 : Xxh64) (now start : ℕ) (pairs : List (Bytes × Bytes)) :
    CacheRun.setAccesses xxh64 (fun _ => now) start pairs =
      pairs.map fun pair => ⟨(hashLmcacheKey xxh64 pair.1).hash, now, .set⟩ := by
  induction pairs generalizing start with
  | nil => rfl
  | cons pair pairs ih => exact congrArg (_ :: ·) (ih (start + 1))

private theorem coldPairs_eq : coldKeys.zip (coldKeys.map fun _ => tooLarge) =
    (List.range 999).map fun index => (List.replicate (index + 2) 0, tooLarge) := by
  rw [coldKeys, List.map_map, List.zip_map']
  rfl

private theorem coldHashes (f : BitVec 64 → α) :
    (coldKeys.zip (coldKeys.map fun _ => tooLarge)).map (fun pair => f (hashLmcacheKey lengthHash pair.1).hash) =
      (List.range 999).map fun index => f (BitVec.ofNat 64 (index + 3)) := by
  rw [coldPairs_eq, List.map_map]
  refine List.map_congr_left fun index _ => ?_
  rw [Function.comp, hashLmcacheKey, lengthHash, List.length_replicate]

/-- What the first batch of the run stores can be found. -/
theorem hotKey_found {connector : RdmaNativeConnector}
    (stored : storeOf connector = ⟨((create (2 ^ 20) 16 0 1000 ⟨20, rfl⟩).table.insert
      (hashLmcacheKey lengthHash [0]) [7] .inline).1, .new 0⟩) :
    (connector.table.lookup (hashLmcacheKey lengthHash [0])).isSome = true := by
  have powerOfTwo : Nat.isPowerOfTwo (2 ^ 20) := ⟨20, rfl⟩
  have two : 2 ≤ 2 ^ 20 := by norm_num
  obtain ⟨entry, built⟩ : ∃ entry : Entry,
      entry = ⟨hashLmcacheKey lengthHash [0], CuckooTable.packBody [7] .inline, .inline⟩ := ⟨_, rfl⟩
  have nonzero : entry.key.hash ≠ 0 := by
    rw [built]
    decide
  have table : connector.table =
      ((CuckooTable.new (2 ^ 20) 16 powerOfTwo).insertRaw entry).1 := by
    have inserts := congrArg Store.table stored
    rw [built] at nonzero ⊢
    rwa [CuckooTable.insert, if_neg nonzero] at inserts
  have placed := (insertRaw_spec (.new 16 powerOfTwo two) nonzero).1
  have live := liveEntries_insertRaw_new 16 powerOfTwo two nonzero
  rw [← table] at placed live
  have own : entry.key = hashLmcacheKey lengthHash [0] := congrArg Entry.key built
  rw [← own, (lookup_eq_some_iff placed nonzero).mpr ⟨entry, by rw [live]; exact Multiset.mem_singleton_self _,
    rfl, rfl⟩]
  rfl

/-- Where the run has come when all keys have been set. -/
theorem hotRead_sets : ∃ state, run (CacheRun.step lengthHash) (.create (2 ^ 20) 16 0 1000 ⟨20, rfl⟩)
    (hotRead.take 2) = some state ∧
      state.connector.poisoned = false ∧
      storeOf state.connector = ⟨((create (2 ^ 20) 16 0 1000 ⟨20, rfl⟩).table.insert
        (hashLmcacheKey lengthHash [0]) [7] .inline).1, .new 0⟩ ∧
      state.connector.lru.keyCount = 1000 ∧ state.connector.lru.watermark = 1000 ∧
      state.events = hotReadRecords.map (fun record => .recorded record.1 record.2) ∧
      state.accesses = hotReadRecords.map (fun record => ⟨record.1, record.2, .set⟩) := by
  have pairs : (coldKeys.zip (coldKeys.map fun _ => tooLarge)).length = 999 := by
    rw [coldPairs_eq, List.length_map, List.length_range]
  have long : ∀ pair ∈ coldKeys.zip (coldKeys.map fun _ => tooLarge), 32 < pair.2.length := by
    rw [coldPairs_eq]
    intro pair member
    obtain ⟨index, _, rfl⟩ := List.mem_map.mp member
    exact Nat.lt_of_lt_of_eq (by decide : 32 < 33) (List.length_replicate).symm
  obtain ⟨start, fresh⟩ : ∃ start : CacheRun, start = .create (2 ^ 20) 16 0 1000 ⟨20, rfl⟩ := ⟨_, rfl⟩
  obtain ⟨first, firstSet⟩ : ∃ next, start.step lengthHash (.set [[0]] [[7]] (fun _ => 1) id) = some next :=
    ⟨_, rfl⟩
  have firstStore : storeOf first.connector =
      ⟨((create (2 ^ 20) 16 0 1000 ⟨20, rfl⟩).table.insert
        (hashLmcacheKey lengthHash [0]) [7] .inline).1, .new 0⟩ := by
    rw [← Option.some.inj firstSet, fresh]
    rfl
  obtain ⟨firstLocks, firstCount, firstMark, firstEvents, firstAccesses⟩ :=
    quiet_set (by rw [fresh]; rfl) (by decide) (by rw [fresh]; decide) firstSet
  obtain ⟨second, secondSet⟩ : ∃ next, first.step lengthHash
      (.set coldKeys (coldKeys.map fun _ => tooLarge) (fun _ => 2) id) = some next := ⟨_, rfl⟩
  have idle : first.connector.lru.keyCount + (coldKeys.zip (coldKeys.map fun _ => tooLarge)).length ≤
      first.connector.lru.watermark := by
    rw [firstCount, firstMark, pairs, fresh]
    decide
  obtain ⟨secondLocks, secondCount, secondMark, secondEvents, secondAccesses⟩ :=
    quiet_set firstLocks (by rw [List.length_map]) idle secondSet
  have secondStore : storeOf second.connector = storeOf first.connector := by
    rw [← Option.some.inj secondSet]
    exact storeOf_refused (congrArg Store.largeObjects firstStore) long idle
  refine ⟨second, ?_, secondLocks, secondStore.trans firstStore, ?_, ?_, ?_, ?_⟩
  · rw [← fresh]
    exact run_cons_eq_some.mpr ⟨first, firstSet, run_cons_eq_some.mpr ⟨second, secondSet, rfl⟩⟩
  · rw [secondCount, firstCount, pairs, fresh]
    rfl
  · rw [secondMark, firstMark, fresh]
    rfl
  · rw [secondEvents, firstEvents, fresh, setEvents_const, setEvents_const,
      coldHashes fun hash => LruEvent.recorded hash 2, hotReadRecords, List.map_cons, List.map_map]
    rfl
  · rw [secondAccesses, firstAccesses, fresh, setAccesses_const, setAccesses_const,
      coldHashes fun hash => CacheAccess.mk hash 2 .set, hotReadRecords, List.map_cons, List.map_map]
    rfl

/-- Where the run has come when the key has been read. -/
theorem hotRead_run : ∃ state, run (CacheRun.step lengthHash) (.create (2 ^ 20) 16 0 1000 ⟨20, rfl⟩)
    hotRead = some state ∧
      state.connector.poisoned = false ∧ state.connector.largeObjects = .new 0 ∧
      state.connector.lru.keyCount = 1000 ∧ state.connector.lru.watermark = 1000 ∧
      state.events = hotReadRecords.map (fun record => .recorded record.1 record.2) ∧
      state.accesses = hotReadRecords.map (fun record => ⟨record.1, record.2, .set⟩) ++
        [⟨2, 3, .get true⟩] := by
  obtain ⟨before, reached, locks, stored, count, mark, events, accesses⟩ := hotRead_sets
  have found := hotKey_found stored
  have region : before.connector.largeObjects = .new 0 := congrArg Store.largeObjects stored
  obtain ⟨keepsLru, keepsLocks, keepsRegion⟩ :
      (before.connector.submitBatchGet lengthHash [[0]]).1.lru = before.connector.lru ∧
      (before.connector.submitBatchGet lengthHash [[0]]).1.poisoned = false ∧
      (before.connector.submitBatchGet lengthHash [[0]]).1.largeObjects = .new 0 := by
    simp [submitBatchGet, submitBatchExists, locks,
      pushCompletion, region]
  refine ⟨⟨(before.connector.submitBatchGet lengthHash [[0]]).1, before.events, before.accesses ++
    if before.connector.poisoned then []
    else CacheRun.getAccesses lengthHash before.connector.table (fun _ => 3) [[0]]⟩, ?_, keepsLocks,
    keepsRegion, keepsLru ▸ count, keepsLru ▸ mark, events, ?_⟩
  · rw [← List.take_append_drop 2 hotRead]
    exact run_append_eq_some.mpr ⟨before, reached, rfl⟩
  · rw [locks, accesses, CacheRun.getAccesses]
    simp only [List.zipIdx_cons, List.zipIdx_nil, List.map_cons, List.map_nil, found, Bool.false_eq_true,
      if_false]
    rfl

private theorem mem_hotReadRecords {record : BitVec 64 × ℕ} : record ∈ hotReadRecords ↔
    record = (2, 1) ∨ ∃ index < 999, record = (BitVec.ofNat 64 (index + 3), 2) := by
  simp only [hotReadRecords, List.mem_cons, List.mem_map, List.mem_range, eq_comm]

private theorem ofNat_injOn {n k : ℕ} (small : n < 2 ^ 64) (below : k < 2 ^ 64)
    (same : BitVec.ofNat 64 n = BitVec.ofNat 64 k) : n = k := by
  have equal := congrArg BitVec.toNat same
  rwa [BitVec.toNat_ofNat, BitVec.toNat_ofNat, Nat.mod_eq_of_lt small, Nat.mod_eq_of_lt below] at equal

private theorem nodup_hotReadRecords : (hotReadRecords.map Prod.fst).Nodup := by
  rw [hotReadRecords, List.map_cons, List.map_map, List.nodup_cons]
  constructor
  · intro member
    obtain ⟨index, listed, same⟩ := List.mem_map.mp member
    have below := List.mem_range.mp listed
    have equal := ofNat_injOn (by omega) (by norm_num) (same.trans (rfl : _ = BitVec.ofNat 64 2))
    omega
  · refine List.Nodup.map_on (fun index listed other otherListed same => ?_) List.nodup_range
    have below := List.mem_range.mp listed
    have otherBelow := List.mem_range.mp otherListed
    have equal := ofNat_injOn (by omega) (by omega) same
    omega

/-- Each key is set once, so its only set is its last one. -/
theorem lastSet_of_nodup {records : List (BitVec 64 × ℕ)} (distinct : (records.map Prod.fst).Nodup)
    {record : BitVec 64 × ℕ} (member : record ∈ records) :
    lastSet (records.map fun record => ⟨record.1, record.2, .set⟩) record.1 = record.2 := by
  induction records using List.reverseRecOn with
  | nil => exact absurd member List.not_mem_nil
  | append_singleton earlier latest ih =>
    rw [List.map_append, List.map_singleton, List.nodup_append] at distinct
    rw [List.map_append, List.map_singleton, lastSet_append]
    rcases List.mem_append.mp member with old | new
    · rw [if_neg fun own => distinct.2.2 _ (List.mem_map_of_mem old) _ (List.mem_singleton_self _)
        own.2.symm]
      exact ih distinct.1 old
    · rw [List.mem_singleton.mp new, if_pos ⟨rfl, rfl⟩]

private theorem mem_trackedKeys_recorded {records : List (BitVec 64 × ℕ)} {key : BitVec 64} :
    key ∈ trackedKeys (records.map fun record => .recorded record.1 record.2) ↔
      ∃ record ∈ records, record.1 = key := by
  induction records using List.reverseRecOn with
  | nil => simp [trackedKeys]
  | append_singleton earlier latest ih =>
    rw [List.map_append, List.map_singleton, trackedKeys_recorded, Finset.mem_insert, ih, or_comm]
    simp only [List.mem_append, List.mem_singleton, or_and_right, exists_or, exists_eq_left, @eq_comm _ key]

/-- The accesses up to the eviction of the batch behind the run. -/
def hotReadAccesses : List CacheAccess :=
  hotReadRecords.map (fun record => ⟨record.1, record.2, .set⟩) ++ [⟨2, 3, .get true⟩] ++
    [⟨BitVec.ofNat 64 1002, 4, .set⟩]

private theorem lastSet_hotRead {record : BitVec 64 × ℕ} (member : record ∈ hotReadRecords) :
    lastSet hotReadAccesses record.1 = record.2 := by
  have other : BitVec.ofNat 64 1002 ≠ record.1 := by
    rcases mem_hotReadRecords.mp member with rfl | ⟨index, below, rfl⟩
    · decide
    · intro same
      have equal := ofNat_injOn (by norm_num) (by omega) same
      omega
  rw [hotReadAccesses, lastSet_append, if_neg fun own => other own.2, lastSet_append,
    if_neg fun own => absurd own.1 (by decide)]
  exact lastSet_of_nodup nodup_hotReadRecords member

private theorem pairwise_times (cold : ℕ) : (1 :: (List.replicate cold 2 ++ [3, 4])).Pairwise (· ≤ ·) := by
  rw [List.pairwise_cons, List.pairwise_append]
  refine ⟨fun time member => ?_, by simp, by simp, by simp⟩
  simp only [List.mem_append, List.mem_replicate, List.mem_cons, List.not_mem_nil, or_false] at member
  omega

private theorem chronological_hotRead : Chronological hotReadAccesses := by
  have cold : (List.range 999).map (CacheAccess.time ∘ (fun record : BitVec 64 × ℕ =>
      ⟨record.1, record.2, .set⟩) ∘ fun index => (BitVec.ofNat 64 (index + 3), 2)) =
        List.replicate 999 2 := by
    rw [List.eq_replicate_iff, List.length_map, List.length_range]
    refine ⟨rfl, fun time member => ?_⟩
    obtain ⟨index, _, rfl⟩ := List.mem_map.mp member
    rfl
  rw [Chronological, hotReadAccesses, List.append_assoc, List.map_append, List.map_map, hotReadRecords,
    List.map_cons, List.map_map, Function.comp_assoc, cold]
  exact pairwise_times 999

/-- The key that was read last is the one that was set first. -/
theorem hotRead_crosses_cut {tracked : Finset (BitVec 64)} (members : ∀ key, key ∈ tracked ↔
      key = BitVec.ofNat 64 1002 ∨ ∃ record ∈ hotReadRecords, record.1 = key) :
    ¬ReadsRespectCut hotReadAccesses tracked 100 := by
  intro respect
  have hotIn : ((2, 1) : BitVec 64 × ℕ) ∈ hotReadRecords := mem_hotReadRecords.mpr (.inl rfl)
  have coldIn : ((3, 2) : BitVec 64 × ℕ) ∈ hotReadRecords :=
    mem_hotReadRecords.mpr (.inr ⟨0, by norm_num, rfl⟩)
  have reads : ReadLater hotReadAccesses 2 3 := by
    refine ⟨⟨2, 3, .get true⟩, ?_, rfl, rfl, fun other member same => ?_⟩
    · rw [hotReadAccesses]
      exact List.mem_append_left _ (List.mem_append_right _ (List.mem_singleton_self _))
    · rw [hotReadAccesses] at member
      rcases List.mem_append.mp member with old | last
      · rcases List.mem_append.mp old with set | get
        · obtain ⟨record, listed, rfl⟩ := List.mem_map.mp set
          rcases mem_hotReadRecords.mp listed with rfl | ⟨index, _, rfl⟩
          · exact absurd same (by decide)
          · exact Nat.lt_succ_self 2
        · rw [List.mem_singleton.mp get] at same
          exact absurd same (by decide)
      · rw [List.mem_singleton.mp last] at same
        exact absurd same (by decide)
  have recorded : ∀ record ∈ hotReadRecords, record.1 ∈ tracked :=
    fun record member => (members _).mpr (.inr ⟨record, member, rfl⟩)
  have sides := respect _ (recorded _ hotIn) _ (recorded _ coldIn) reads
  rw [lastSet_hotRead hotIn, lastSet_hotRead coldIn] at sides
  dsimp only at sides
  rcases sides with few | many
  · have nobody : (tracked.filter fun key => lastSet hotReadAccesses key < 1) = ∅ := by
      refine Finset.filter_eq_empty_iff.mpr fun key member early => ?_
      rcases (members key).mp member with rfl | ⟨record, listed, rfl⟩
      · have late : lastSet hotReadAccesses (BitVec.ofNat 64 1002) = 4 := by
          rw [hotReadAccesses, lastSet_append, if_pos ⟨rfl, rfl⟩]
        omega
      · rw [lastSet_hotRead listed] at early
        rcases mem_hotReadRecords.mp listed with rfl | ⟨index, _, rfl⟩
        all_goals omega
    rw [nobody, Finset.card_empty] at few
    omega
  · have early : (Finset.range 999).image (fun index => BitVec.ofNat 64 (index + 3)) ⊆
        tracked.filter fun key => lastSet hotReadAccesses key ≤ 2 := by
      intro key member
      obtain ⟨index, below, rfl⟩ := Finset.mem_image.mp member
      have listed : (BitVec.ofNat 64 (index + 3), 2) ∈ hotReadRecords :=
        mem_hotReadRecords.mpr (.inr ⟨index, Finset.mem_range.mp below, rfl⟩)
      exact Finset.mem_filter.mpr ⟨recorded _ listed, (lastSet_hotRead listed).le⟩
    have count := Finset.card_le_card early
    rw [Finset.card_image_of_injOn, Finset.card_range] at count
    · omega
    · intro index below other otherBelow same
      rw [Finset.coe_range, Set.mem_Iio] at below otherBelow
      have equal := ofNat_injOn (by omega) (by omega) same
      omega

/-- A key is set, nine hundred and ninety-nine others are set after it, and it is read. The next set takes
the one that was just read. -/
theorem cache_evicts_key_just_read : ∃ state connector,
    run (CacheRun.step lengthHash) (.create (2 ^ 20) 16 0 1000 ⟨20, rfl⟩) hotRead = some state ∧
      (∀ op ∈ hotRead, op.Iterates) ∧
      CacheRun.evicting lengthHash state.connector [List.replicate 1001 0] [tooLarge] (fun _ => 4) =
        some connector ∧
      Chronological (state.accesses ++ CacheRun.setAccesses lengthHash (fun _ => 4) 0
        [(List.replicate 1001 0, tooLarge)]) ∧
      ¬∀ iterate, (∀ list, (iterate list).Perm list) →
        KeepsRecentlyUsed (state.accesses ++ CacheRun.setAccesses lengthHash (fun _ => 4) 0
            [(List.replicate 1001 0, tooLarge)])
          (trackedKeys (state.events ++ CacheRun.setEvents lengthHash (fun _ => 4) 0
            [(List.replicate 1001 0, tooLarge)]))
          (evictionCandidates connector iterate) := by
  obtain ⟨state, reached, locks, region, count, mark, events, accesses⟩ := hotRead_run
  have full : state.connector.lru.watermark ≤ state.connector.lru.keyCount := by rw [count, mark]
  obtain ⟨connector, evicts, last, counted, needed⟩ :=
    @evicting_refused lengthHash state.connector (fun _ => 4) (List.replicate 1001 0) tooLarge locks region
      (by decide) full
  have iterates : ∀ op ∈ hotRead, op.Iterates := by
    simp [hotRead, CacheOp.Iterates]
  have key : (hashLmcacheKey lengthHash (List.replicate 1001 0)).hash = BitVec.ofNat 64 1002 := by
    rw [hashLmcacheKey, lengthHash, List.length_replicate]
  have tracks := (tracksSets_create (2 ^ 20) 16 0 1000 ⟨20, rfl⟩).run iterates reached
  have first := @TracksSets.setAll lengthHash _ _ state.connector.counted tracks
    [(List.replicate 1001 0, tooLarge)] fun _ => 4
  rw [← last] at first
  refine ⟨state, connector, reached, iterates, evicts, ?_⟩
  rw [setAccesses_const, setEvents_const, List.map_singleton, List.map_singleton, key, events, accesses]
    at first ⊢
  refine ⟨chronological_hotRead, fun keeps => ?_⟩
  simp only [evictionCandidates, needed, if_true, counted, count] at keeps
  refine hotRead_crosses_cut (fun key => ?_) ((first.keepsRecentlyUsed_iff chronological_hotRead _).mp keeps)
  rw [trackedKeys_recorded, Finset.mem_insert, mem_trackedKeys_recorded]

end HotRead

end Rdmas.Soundness
