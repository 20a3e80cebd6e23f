import Mathlib.Data.Finset.Card
import Rdmas.Math.Ranking
import Rdmas.Math.Runs
import Rdmas.Model.Lru

/-! # Histories of the LRU tracker

Between two selections the tracker holds its accesses twice over: the older ones in a map, the newer ones
in a queue. Together they are one map from the tracked keys to their last accesses, and a selection takes
the first keys of that map in the order of access. What is tracked is said by the history alone: the keys
recorded and not selected since.
-/

namespace Rdmas.Soundness

open Rdmas.Model Runs Ranking

/-- Calls on a tracker, with the clock reading and the iteration order they meet. -/
inductive LruCall where
  | recordAccess (keyHash : BitVec 64) (now : ℕ)
  | selectEvictionCandidates (n : ℕ) (iterate : AccessOrder)
  | incrementEvicted (delta : ℕ)

/-- A call meets the entries of the map in some order, each of them once. -/
def LruCall.Iterates : LruCall → Prop
  | .selectEvictionCandidates _ iterate => ∀ list, (iterate list).Perm list
  | _ => True

/-- What a history says about keys: one was accessed, or some were handed out. -/
inductive LruEvent where
  | recorded (keyHash : BitVec 64) (now : ℕ)
  | selected (keys : List (BitVec 64))
deriving DecidableEq, Repr

/-- The keys recorded and not selected since their last record. -/
def trackedKeys (events : List LruEvent) : Finset (BitVec 64) :=
  events.foldl (fun tracked event =>
    match event with
    | .recorded keyHash _ => insert keyHash tracked
    | .selected keys => tracked \ keys.toFinset) ∅

/-- The time of the latest access to a key. -/
def latestAccess (events : List LruEvent) (key : BitVec 64) : ℕ :=
  events.foldl (fun latest event =>
    match event with
    | .recorded keyHash now => if keyHash = key then now else latest
    | .selected _ => latest) 0

/-- A tracker with the history of the calls made on it. -/
structure LruHistory where
  lru : LruTracker
  events : List LruEvent

namespace LruHistory

def new (watermark : ℕ) : LruHistory := ⟨.new watermark, []⟩

def step (state : LruHistory) : LruCall → Option LruHistory
  | .recordAccess keyHash now =>
      some ⟨state.lru.recordAccess keyHash now, state.events ++ [.recorded keyHash now]⟩
  | .selectEvictionCandidates n iterate =>
      let (lru, keys) := state.lru.selectEvictionCandidates iterate n
      some ⟨lru, state.events ++ [.selected keys]⟩
  | .incrementEvicted delta => some ⟨state.lru.incrementEvicted delta, state.events⟩

end LruHistory

/-- The keys a tracker holds. -/
def heldKeys (lru : LruTracker) : Finset (BitVec 64) :=
  ((lru.accesses ++ lru.lastAccess).map Prod.fst).toFinset

/-- A selection hands out the least recently used keys and keeps the others. -/
structure ExactSelection (events : List LruEvent) (n : ℕ) (after : LruTracker)
    (selected : List (BitVec 64)) : Prop where
  distinct : selected.Nodup
  tracked : ∀ key ∈ selected, key ∈ trackedKeys events
  count : selected.length = min n (trackedKeys events).card
  oldest : ∀ key ∈ selected, ∀ other ∈ trackedKeys (events ++ [.selected selected]),
    latestAccess events key ≤ latestAccess events other
  kept : heldKeys after = trackedKeys (events ++ [.selected selected])
  counted : after.keyCount = (trackedKeys (events ++ [.selected selected])).card

section Merging

variable {lru : LruTracker} {lastAccess : List (BitVec 64 × ℕ)} {record : BitVec 64 × ℕ}

/-- The map of last accesses has one entry a key. -/
def DistinctAccesses (lru : LruTracker) : Prop := (lru.lastAccess.map Prod.fst).Nodup

/-- The map a selection works on: the accesses of the queue are the newer ones. -/
def mergedAccesses (lru : LruTracker) : List (BitVec 64 × ℕ) :=
  lru.accesses.foldl LruTracker.insertAccess lru.lastAccess

private theorem nodup_insertAccess {lastAccess : List (BitVec 64 × ℕ)}
    (distinct : (lastAccess.map Prod.fst).Nodup) (record : BitVec 64 × ℕ) :
    ((LruTracker.insertAccess lastAccess record).map Prod.fst).Nodup := by
  rw [LruTracker.insertAccess, List.map_cons, List.nodup_cons]
  refine ⟨?_, distinct.sublist (List.filter_sublist.map _)⟩
  rw [List.mem_map]
  rintro ⟨entry, member, same⟩
  have differs := (List.mem_filter.mp member).2
  exact absurd same (by simpa using differs)

theorem nodup_merged {lastAccess accesses : List (BitVec 64 × ℕ)}
    (distinct : (lastAccess.map Prod.fst).Nodup) :
    ((accesses.foldl LruTracker.insertAccess lastAccess).map Prod.fst).Nodup := by
  induction accesses generalizing lastAccess with
  | nil => exact distinct
  | cons record accesses ih => exact ih (nodup_insertAccess distinct record)

theorem mem_insertAccess {entry : BitVec 64 × ℕ} :
    entry ∈ LruTracker.insertAccess lastAccess record ↔
      entry = record ∨ (entry ∈ lastAccess ∧ entry.1 ≠ record.1) := by
  simp [LruTracker.insertAccess]

private theorem mergedAccesses_recordAccess (keyHash : BitVec 64) (now : ℕ) :
    mergedAccesses (lru.recordAccess keyHash now) =
      LruTracker.insertAccess (mergedAccesses lru) (keyHash, now) := by
  rw [mergedAccesses, LruTracker.recordAccess, List.foldl_append]
  rfl

/-- The queue and the map hold the keys of the merged map. -/
theorem mem_heldKeys {key : BitVec 64} :
    key ∈ heldKeys lru ↔ ∃ time, (key, time) ∈ mergedAccesses lru := by
  obtain ⟨accesses, lastAccess, keyCount, watermark, evicted⟩ := lru
  simp only [heldKeys, mergedAccesses, List.mem_toFinset, List.mem_map, Prod.exists, exists_and_right,
    exists_eq_right]
  induction accesses generalizing lastAccess with
  | nil => rfl
  | cons record accesses ih =>
    obtain ⟨recorded, now⟩ := record
    rw [List.foldl_cons, ← ih]
    simp only [List.cons_append, List.mem_cons, List.mem_append, mem_insertAccess, Prod.mk.injEq]
    by_cases same : key = recorded
    · simp [same]
    · simp [same]

end Merging

section Selection

variable {lru : LruTracker} {iterate : AccessOrder}

/-- The order in which a selection hands out keys. -/
def evictionOrder (lru : LruTracker) (iterate : AccessOrder) : List (BitVec 64 × ℕ) :=
  (iterate (mergedAccesses lru)).insertionSort fun left right => left.2 ≤ right.2

theorem evictionOrder_perm (order : ∀ list, (iterate list).Perm list) :
    (evictionOrder lru iterate).Perm (mergedAccesses lru) :=
  (List.perm_insertionSort _ _).trans (order _)

theorem evictionOrder_ranked : Ranked Prod.snd (evictionOrder lru iterate) :=
  ranked_insertionSort Prod.snd _

theorem evictionOrder_nodup (distinct : DistinctAccesses lru) (order : ∀ list, (iterate list).Perm list) :
    ((evictionOrder lru iterate).map Prod.fst).Nodup :=
  ((evictionOrder_perm order).map Prod.fst).nodup_iff.mpr (nodup_merged distinct)

/-- Removing the front of a list by its keys leaves the back. -/
theorem filter_keys_of_append {front back : List (BitVec 64 × ℕ)}
    (distinct : ((front ++ back).map Prod.fst).Nodup) :
    (front ++ back).filter (fun entry => !(front.map Prod.fst).contains entry.1) = back := by
  rw [List.map_append, List.nodup_append] at distinct
  have gone : front.filter (fun entry => !(front.map Prod.fst).contains entry.1) = [] := by
    rw [List.filter_eq_nil_iff]
    intro entry member
    have contained : entry.1 ∈ front.map Prod.fst := List.mem_map_of_mem member
    simpa using contained
  have stays : back.filter (fun entry => !(front.map Prod.fst).contains entry.1) = back := by
    rw [List.filter_eq_self]
    intro entry member
    have absent : entry.1 ∉ front.map Prod.fst := fun contained =>
      distinct.2.2 _ contained _ (List.mem_map_of_mem member) rfl
    simpa using absent
  rw [List.filter_append, gone, stays, List.nil_append]

/-- A selection cuts the order of eviction: it hands out the front and keeps the rest. -/
theorem select_spec (distinct : DistinctAccesses lru) (order : ∀ list, (iterate list).Perm list) (n : ℕ) :
    (lru.selectEvictionCandidates iterate n).2 = ((evictionOrder lru iterate).take n).map Prod.fst ∧
      (lru.selectEvictionCandidates iterate n).1.accesses = [] ∧
      (lru.selectEvictionCandidates iterate n).1.lastAccess.Perm ((evictionOrder lru iterate).drop n) ∧
      (lru.selectEvictionCandidates iterate n).1.keyCount =
        (lru.selectEvictionCandidates iterate n).1.lastAccess.length := by
  have perm := @evictionOrder_perm lru iterate order
  have once := evictionOrder_nodup distinct order
  by_cases nothing : ((mergedAccesses lru).isEmpty || n == 0) = true
  · have selects : lru.selectEvictionCandidates iterate n = (_, []) := if_pos nothing
    have cut : (evictionOrder lru iterate).take n = [] ∧
        (evictionOrder lru iterate).drop n = evictionOrder lru iterate := by
      rcases Bool.or_eq_true_iff.mp nothing with empty | zero
      · rw [List.isEmpty_iff.mp empty] at perm
        simp [perm.eq_nil]
      · simp [beq_iff_eq.mp zero]
    rw [selects, cut.1, cut.2]
    exact ⟨rfl, rfl, perm.symm, rfl⟩
  · have selects : lru.selectEvictionCandidates iterate n = (_, _) := if_neg nothing
    rw [selects]
    have front : ((evictionOrder lru iterate).take
        (min n (evictionOrder lru iterate).length)).map Prod.fst =
          ((evictionOrder lru iterate).take n).map Prod.fst := by
      rw [← List.take_eq_take_min]
    refine ⟨front, rfl, ?_, rfl⟩
    refine List.Perm.trans (perm.symm.filter _) (List.Perm.of_eq ?_)
    rw [← List.take_append_drop n (evictionOrder lru iterate)] at once
    have back := filter_keys_of_append once
    rw [List.take_append_drop, ← front] at back
    exact back

/-- The kept entries are those whose keys were not handed out. -/
theorem mem_drop_evictionOrder (distinct : DistinctAccesses lru)
    (order : ∀ list, (iterate list).Perm list) {n : ℕ} {entry : BitVec 64 × ℕ} :
    entry ∈ (evictionOrder lru iterate).drop n ↔
      entry ∈ mergedAccesses lru ∧ entry.1 ∉ ((evictionOrder lru iterate).take n).map Prod.fst := by
  have once := evictionOrder_nodup distinct order
  rw [← List.take_append_drop n (evictionOrder lru iterate)] at once
  conv_lhs => rw [← filter_keys_of_append once]
  rw [List.take_append_drop, List.mem_filter, (evictionOrder_perm order).mem_iff]
  simp

/-- No hash is selected twice, whatever the iteration order of the map. -/
theorem nodup_select (distinct : DistinctAccesses lru) (order : ∀ list, (iterate list).Perm list)
    (n : ℕ) : (lru.selectEvictionCandidates iterate n).2.Nodup := by
  rw [(select_spec distinct order n).1]
  exact (evictionOrder_nodup distinct order).sublist ((List.take_sublist _ _).map _)

theorem distinctAccesses_select (distinct : DistinctAccesses lru) (n : ℕ) :
    DistinctAccesses (lru.selectEvictionCandidates iterate n).1 := by
  simp only [LruTracker.selectEvictionCandidates]
  split
  · exact nodup_merged distinct
  · exact List.Nodup.sublist (List.filter_sublist.map _) (nodup_merged distinct)

theorem evicted_select (n : ℕ) : (lru.selectEvictionCandidates iterate n).1.evicted = lru.evicted := by
  simp only [LruTracker.selectEvictionCandidates]
  split <;> rfl

/-- After a selection the queue is empty. -/
theorem mergedAccesses_select (distinct : DistinctAccesses lru) (order : ∀ list, (iterate list).Perm list)
    (n : ℕ) : mergedAccesses (lru.selectEvictionCandidates iterate n).1 =
      (lru.selectEvictionCandidates iterate n).1.lastAccess := by
  rw [mergedAccesses, (select_spec distinct order n).2.1]
  rfl

end Selection

section History

variable {state next : LruHistory} {events : List LruEvent}

@[simp] theorem trackedKeys_recorded (events : List LruEvent) (keyHash : BitVec 64) (now : ℕ) :
    trackedKeys (events ++ [.recorded keyHash now]) = insert keyHash (trackedKeys events) := by
  rw [trackedKeys, List.foldl_append]
  rfl

@[simp] theorem trackedKeys_selected (events : List LruEvent) (keys : List (BitVec 64)) :
    trackedKeys (events ++ [.selected keys]) = trackedKeys events \ keys.toFinset := by
  rw [trackedKeys, List.foldl_append]
  rfl

@[simp] theorem latestAccess_recorded (events : List LruEvent) (keyHash key : BitVec 64) (now : ℕ) :
    latestAccess (events ++ [.recorded keyHash now]) key =
      if keyHash = key then now else latestAccess events key := by
  rw [latestAccess, List.foldl_append]
  rfl

@[simp] theorem latestAccess_selected (events : List LruEvent) (keys : List (BitVec 64))
    (key : BitVec 64) : latestAccess (events ++ [.selected keys]) key = latestAccess events key := by
  rw [latestAccess, List.foldl_append]
  rfl

/-- The merged map says of the tracked keys when each was accessed last. -/
structure Remembers (state : LruHistory) : Prop where
  distinct : DistinctAccesses state.lru
  merged : ∀ {key time}, (key, time) ∈ mergedAccesses state.lru ↔
    key ∈ trackedKeys state.events ∧ latestAccess state.events key = time

theorem Remembers.recordAccess (remembers : Remembers state) (keyHash : BitVec 64) (now : ℕ) :
    Remembers ⟨state.lru.recordAccess keyHash now, state.events ++ [.recorded keyHash now]⟩ := by
  refine ⟨remembers.distinct, fun {key time} => ?_⟩
  rw [mergedAccesses_recordAccess, mem_insertAccess, remembers.merged, trackedKeys_recorded,
    latestAccess_recorded, Finset.mem_insert, Prod.mk.injEq]
  by_cases same : key = keyHash
  · simp [same, eq_comm]
  · simp [same, Ne.symm same]

theorem Remembers.select (remembers : Remembers state)
    {iterate : AccessOrder} (order : ∀ list, (iterate list).Perm list) (n : ℕ) :
    Remembers ⟨(state.lru.selectEvictionCandidates iterate n).1,
      state.events ++ [.selected (state.lru.selectEvictionCandidates iterate n).2]⟩ := by
  obtain ⟨handed, _, kept, _⟩ := select_spec remembers.distinct order n
  refine ⟨distinctAccesses_select remembers.distinct n, fun {key time} => ?_⟩
  rw [mergedAccesses_select remembers.distinct order, kept.mem_iff,
    mem_drop_evictionOrder remembers.distinct order, remembers.merged, ← handed, trackedKeys_selected,
    latestAccess_selected, Finset.mem_sdiff, List.mem_toFinset]
  exact and_right_comm

theorem Remembers.step {call : LruCall} (remembers : Remembers state) (iterates : call.Iterates)
    (taken : state.step call = some next) : Remembers next := by
  cases call with
  | recordAccess keyHash now =>
    cases taken
    exact remembers.recordAccess keyHash now
  | selectEvictionCandidates n iterate =>
    cases taken
    exact remembers.select iterates n
  | incrementEvicted delta =>
    cases taken
    exact ⟨remembers.distinct, remembers.merged⟩

theorem remembers_new (watermark : ℕ) : Remembers (.new watermark) := by
  refine ⟨List.nodup_nil, fun {key time} => ?_⟩
  simp [mergedAccesses, LruHistory.new, LruTracker.new, trackedKeys]

theorem Remembers.run {calls : List LruCall} (remembers : Remembers state)
    (iterates : ∀ call ∈ calls, call.Iterates)
    (reached : Runs.run LruHistory.step state calls = some next) : Remembers next :=
  Throughout.invariant (fun kept allowed taken => Remembers.step kept allowed taken) remembers
    (throughout_of_forall iterates state) reached

theorem Remembers.heldKeys (remembers : Remembers state) :
    heldKeys state.lru = trackedKeys state.events := by
  ext key
  rw [mem_heldKeys]
  simp [remembers.merged]

/-- One entry for each tracked key. -/
theorem Remembers.length (remembers : Remembers state) :
    (mergedAccesses state.lru).length = (trackedKeys state.events).card := by
  have keys : ((mergedAccesses state.lru).map Prod.fst).toFinset = trackedKeys state.events := by
    ext key
    simp [remembers.merged]
  have once : ((mergedAccesses state.lru).map Prod.fst).Nodup := nodup_merged remembers.distinct
  rw [← keys, List.toFinset_card_of_nodup once, List.length_map]

/-- From a tracker that remembers its history, a selection is exact. -/
theorem Remembers.exactSelection (remembers : Remembers state)
    {iterate : AccessOrder} (order : ∀ list, (iterate list).Perm list) (n : ℕ) :
    ExactSelection state.events n (state.lru.selectEvictionCandidates iterate n).1
      (state.lru.selectEvictionCandidates iterate n).2 := by
  have after := remembers.select order n
  have entries := @evictionOrder_perm state.lru iterate order
  obtain ⟨handed, _, kept, counted⟩ := select_spec remembers.distinct order n
  refine ⟨nodup_select remembers.distinct order n, ?_, ?_, ?_, after.heldKeys, ?_⟩
  · intro key member
    rw [handed, List.mem_map] at member
    obtain ⟨entry, front, rfl⟩ := member
    exact (remembers.merged.mp (entries.mem_iff.mp (List.mem_of_mem_take front))).1
  · rw [handed, List.length_map, List.length_take, entries.length_eq, remembers.length]
  · intro key member other left
    rw [handed, List.mem_map] at member
    obtain ⟨entry, front, rfl⟩ := member
    have latest := (remembers.merged.mp (entries.mem_iff.mp (List.mem_of_mem_take front))).2
    have back : (other, latestAccess state.events other) ∈ (evictionOrder state.lru iterate).drop n := by
      have entry := after.merged.mpr ⟨left, rfl⟩
      rwa [mergedAccesses_select remembers.distinct order, kept.mem_iff, latestAccess_selected] at entry
    rw [latest]
    exact evictionOrder_ranked.le_of_cut front back
  · rw [counted, ← mergedAccesses_select remembers.distinct order]
    exact after.length

end History

/-- Whatever calls were made on a tracker before, it holds the keys of its history, and every selection is
exact. -/
theorem lru_selection_is_exact (watermark : ℕ) {calls : List LruCall} {state : LruHistory}
    (iterates : ∀ call ∈ calls, call.Iterates)
    (reached : run LruHistory.step (.new watermark) calls = some state) :
    heldKeys state.lru = trackedKeys state.events ∧
      ∀ n iterate, (∀ list, (iterate list).Perm list) →
        ExactSelection state.events n (state.lru.selectEvictionCandidates iterate n).1
          (state.lru.selectEvictionCandidates iterate n).2 := by
  have remembers := (remembers_new watermark).run iterates reached
  exact ⟨remembers.heldKeys, fun n iterate order => remembers.exactSelection order n⟩

/-- Two keys are accessed at one time, and one of them is handed out; when it comes back, the other one is
the older. -/
def accessedAgain : List LruCall :=
  [.recordAccess 7 5, .recordAccess 8 5, .selectEvictionCandidates 1 List.reverse, .recordAccess 7 6,
    .incrementEvicted 1]

theorem lru_selection_of_key_left_behind :
    ∃ state, run LruHistory.step (.new 1000) accessedAgain = some state ∧
      (state.lru.selectEvictionCandidates id 1).2 = [8] ∧
      ExactSelection state.events 1 (state.lru.selectEvictionCandidates id 1).1
        (state.lru.selectEvictionCandidates id 1).2 := by
  have iterates : ∀ call ∈ accessedAgain, call.Iterates := by
    simp only [accessedAgain, List.forall_mem_cons, LruCall.Iterates, true_and]
    exact ⟨List.reverse_perm, fun _ member => absurd member List.not_mem_nil⟩
  refine ⟨_, rfl, by decide, ?_⟩
  exact (lru_selection_is_exact 1000 iterates rfl).2 1 id List.Perm.refl

end Rdmas.Soundness
