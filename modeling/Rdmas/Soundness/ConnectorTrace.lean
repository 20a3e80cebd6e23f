import Rdmas.Math.Runs
import Rdmas.Model.Connector

/-! # Batches as sequences of store operations

What a batch does to the table and the extent region is a sequence of three kinds of operations. The
first loop of a set performs one for every pair; eviction and the retry loop depend on what the first
loop found. Everything else a batch changes (identifiers, completions, access records) does not touch
the store.
-/

namespace Rdmas.Soundness

open Rdmas.Model LittleEndian Runs RdmaNativeConnector

/-- The table and the extents of a connector. -/
structure Store where
  table : CuckooTable
  largeObjects : LargeObjectRegion

def storeOf (connector : RdmaNativeConnector) : Store := ⟨connector.table, connector.largeObjects⟩

inductive StoreOp where
  | inline (key : HashedKey) (data : Bytes)
  | extent (key : HashedKey) (data : Bytes)
  | delete (key : HashedKey)
deriving DecidableEq, Repr

def Store.apply (store : Store) : StoreOp → Store
  | .inline key data => { store with table := (store.table.insert key data .inline).1 }
  | .extent key data =>
      match store.largeObjects.allocate data with
      | (largeObjects, some offset) =>
          ⟨(store.table.insertExtent key (BitVec.ofNat 64 offset) (BitVec.ofNat 64 data.length)).1,
            largeObjects⟩
      | (largeObjects, none) => { store with largeObjects }
  | .delete key => { store with table := (store.table.delete key).1 }

def Store.step (store : Store) (op : StoreOp) : Option Store := some (store.apply op)

/-- Batches submitted to a connector, with the clock readings and the iteration order they meet. -/
inductive ConnectorOp where
  | batchSet (keys mvs : List Bytes) (clock : ℕ → ℕ)
      (iterate : AccessOrder)
  | batchGet (keys : List Bytes)
  | batchExists (keys : List Bytes)
  | batchDelete (keys : List Bytes)

namespace ConnectorOp

/-- The keys with the data submitted for them. -/
def pairs : ConnectorOp → List (Bytes × Bytes)
  | .batchSet keys mvs _ _ => keys.zip mvs
  | _ => []

def keys : ConnectorOp → List Bytes
  | .batchSet keys _ _ _ | .batchGet keys | .batchExists keys | .batchDelete keys => keys

theorem mem_keys {op : ConnectorOp} {key data : Bytes} (given : (key, data) ∈ op.pairs) :
    key ∈ op.keys := by
  cases op with
  | batchSet keys mvs clock iterate => exact (List.of_mem_zip given).1
  | batchGet | batchExists | batchDelete => exact absurd given List.not_mem_nil

section Trace

variable (xxh64 : Xxh64)

def apply (connector : RdmaNativeConnector) : ConnectorOp → RdmaNativeConnector
  | .batchSet keys mvs clock iterate => (connector.submitBatchSet xxh64 keys mvs clock iterate).1
  | .batchGet keys => (connector.submitBatchGet xxh64 keys).1
  | .batchExists keys => (connector.submitBatchExists xxh64 keys).1
  | .batchDelete keys => (connector.submitBatchDelete xxh64 keys).1

def step (connector : RdmaNativeConnector) (op : ConnectorOp) : Option RdmaNativeConnector :=
  some (op.apply xxh64 connector)

/-- What the first loop does for a pair. -/
def pairOp (pair : Bytes × Bytes) : StoreOp :=
  if pair.2.length ≤ 32 then .inline (hashLmcacheKey xxh64 pair.1) pair.2
  else .extent (hashLmcacheKey xxh64 pair.1) pair.2

/-- What the retry loop does, from the results of the first. -/
def retryOps : List (Bytes × Bytes) → List Bool → List StoreOp
  | pair :: pairs, ok :: results =>
      if ok || decide (pair.2.length ≤ 32) then retryOps pairs results
      else .extent (hashLmcacheKey xxh64 pair.1) pair.2 :: retryOps pairs results
  | _, _ => []

/-- What an eviction does. -/
def evictOps (connector : RdmaNativeConnector) (iterate : AccessOrder) : List StoreOp :=
  if connector.lru.needsEviction then
    (connector.lru.selectEvictionCandidates iterate (max (connector.lru.keyCount / 10) 1)).2.map
      fun keyHash => .delete (evictionKey keyHash)
  else []

/-- The store operations of a batch. -/
def trace (connector : RdmaNativeConnector) : ConnectorOp → List StoreOp
  | .batchSet keys mvs clock iterate =>
      if connector.poisoned then []
      else
        let first := connector.counted.setAll xxh64 (keys.zip mvs) clock
        (keys.zip mvs).map (pairOp xxh64) ++
          if first.evictionNeeded then
            evictOps first.connector iterate ++ retryOps xxh64 (keys.zip mvs) first.results
          else []
  | .batchDelete keys =>
      if connector.poisoned then []
      else keys.map fun key => .delete (hashLmcacheKey xxh64 key)
  | _ => []

end Trace

variable {xxh64 : Xxh64} {connector : RdmaNativeConnector}

private theorem storeOf_insertLarge (connector : RdmaNativeConnector) (hk : HashedKey) (data : Bytes) :
    storeOf (connector.insertLarge hk data).1 = (storeOf connector).apply (.extent hk data) := by
  rcases returned : connector.largeObjects.allocate data with ⟨largeObjects, _ | offset⟩ <;>
    simp only [insertLarge, Store.apply, storeOf, returned]

/-- An iteration of the first loop. -/
theorem storeOf_setOne (clock : ℕ → ℕ) (progress : SetProgress) (pair : Bytes × Bytes) :
    storeOf (setOne xxh64 clock progress pair).connector =
      (storeOf progress.connector).apply (pairOp xxh64 pair) := by
  obtain ⟨key, data⟩ := pair
  simp only [setOne, pairOp]
  split
  · next empty =>
      have short : data.length ≤ 32 := by
        rw [Bool.and_eq_true, List.isEmpty_iff] at empty
        simp [empty.1]
      rw [if_pos short]
      rfl
  · by_cases short : data.length ≤ 32
    · simp only [if_pos short]
      rfl
    · simp only [if_neg short]
      -- The access record is not part of the store.
      rw [show storeOf progress.connector = storeOf { progress.connector with
        lru := progress.connector.lru.recordAccess (hashLmcacheKey xxh64 key).hash
          (clock progress.results.length) } from rfl, ← storeOf_insertLarge]
      split <;> next returned => rw [returned]

theorem run_firstLoop (clock : ℕ → ℕ) (pairs : List (Bytes × Bytes)) (progress : SetProgress) :
    run Store.step (storeOf progress.connector) (pairs.map (pairOp xxh64)) =
      some (storeOf (pairs.foldl (setOne xxh64 clock) progress).connector) := by
  induction pairs generalizing progress with
  | nil => rfl
  | cons pair pairs ih =>
    rw [List.map_cons, List.foldl_cons, ← ih, storeOf_setOne]
    rfl

theorem run_deletes (store : Store) (keys : List HashedKey) :
    run Store.step store (keys.map .delete) =
      some { store with table := keys.foldl (fun table key => (table.delete key).1) store.table } := by
  induction keys generalizing store with
  | nil => rfl
  | cons key keys ih => exact ih (store.apply (.delete key))

theorem run_evictOps (connector : RdmaNativeConnector) (iterate : AccessOrder) :
    run Store.step (storeOf connector) (evictOps connector iterate) =
      some (storeOf (connector.evictIfNeeded iterate)) := by
  unfold evictOps evictIfNeeded
  cases connector.lru.needsEviction with
  | false => rfl
  | true =>
    have deletes := run_deletes (storeOf connector)
      ((connector.lru.selectEvictionCandidates iterate
        (max (connector.lru.keyCount / 10) 1)).2.map evictionKey)
    rw [List.map_map, List.foldl_map] at deletes
    simp only [if_true, Bool.not_true, Bool.false_eq_true, if_false]
    refine Eq.trans deletes ?_
    split
    · next nobody =>
        rw [List.isEmpty_iff.mp nobody]
        rfl
    · rfl

theorem run_retryOps (connector : RdmaNativeConnector) (pairs : List (Bytes × Bytes)) (results : List Bool) :
    run Store.step (storeOf connector) (retryOps xxh64 pairs results) =
      some (storeOf (connector.retryFailed xxh64 pairs results).1) := by
  induction pairs generalizing connector results with
  | nil => rfl
  | cons pair pairs ih =>
    obtain ⟨key, data⟩ := pair
    cases results with
    | nil => rfl
    | cons ok results =>
      simp only [retryOps, retryFailed]
      cases ok with
      | true => exact ih connector results
      | false =>
        by_cases short : data.length ≤ 32
        · simp only [short, decide_true, Bool.or_true, if_true, Bool.false_eq_true, if_false,
            if_neg (Nat.not_lt.mpr short)]
          exact ih connector results
        · have stored := storeOf_insertLarge connector (hashLmcacheKey xxh64 key) data
          simp only [short, decide_false, Bool.or_false, Bool.false_eq_true, if_false,
            if_pos (Nat.lt_of_not_le short)]
          change run Store.step ((storeOf connector).apply _) _ = _
          rw [← stored]
          split <;> next returned => rw [returned]; exact ih _ results

private theorem deleteKeys_eq (table : CuckooTable) (keys : List Bytes) :
    (deleteKeys xxh64 table keys).1 =
      keys.foldl (fun table key => (table.delete (hashLmcacheKey xxh64 key)).1) table := by
  induction keys generalizing table with
  | nil => rfl
  | cons key keys ih => exact ih _

/-- The trace of a batch is what the batch does to the store. -/
theorem run_trace (connector : RdmaNativeConnector) (op : ConnectorOp) :
    run Store.step (storeOf connector) (op.trace xxh64 connector) =
      some (storeOf (op.apply xxh64 connector)) := by
  cases op with
  | batchSet keys mvs clock iterate =>
    simp only [trace, apply, submitBatchSet]
    split
    · rfl
    · have first : run Store.step (storeOf connector) ((keys.zip mvs).map (pairOp xxh64)) =
          some (storeOf (setAll xxh64 connector.counted (keys.zip mvs) clock).connector) :=
        run_firstLoop clock (keys.zip mvs) ⟨connector.counted, [], false⟩
      generalize setAll xxh64 _ _ _ = progress at first ⊢
      refine run_append_eq_some.mpr ⟨_, first, ?_⟩
      cases progress.evictionNeeded with
      | false => rfl
      | true =>
        refine run_append_eq_some.mpr ⟨_, run_evictOps _ iterate, ?_⟩
        simp only [if_true, run_retryOps]
        split <;> rfl
  | batchGet keys | batchExists keys =>
    simp only [trace, apply, submitBatchGet, submitBatchExists]
    split <;> rfl
  | batchDelete keys =>
    simp only [trace, apply, submitBatchDelete]
    split
    · rfl
    · have deletes := run_deletes (storeOf connector) (keys.map (hashLmcacheKey xxh64))
      rw [List.map_map, List.foldl_map] at deletes
      refine Eq.trans deletes ?_
      rw [← deleteKeys_eq]
      rfl

end ConnectorOp

section Loops

variable {β : Type} {part : RdmaNativeConnector → β} {xxh64 : Xxh64}

/-- An iteration of the first loop records an access and adds one result; what inserts leave alone is
otherwise as it was. -/
theorem setOne_part (inlines : ∀ connector hk data, part (insertInline connector hk data).1 = part connector)
    (extents : ∀ connector hk data, part (insertLarge connector hk data).1 = part connector)
    (clock : ℕ → ℕ) (progress : SetProgress) (pair : Bytes × Bytes) :
    part (setOne xxh64 clock progress pair).connector = part { progress.connector with
        lru := progress.connector.lru.recordAccess (hashLmcacheKey xxh64 pair.1).hash
          (clock progress.results.length) } ∧
      (setOne xxh64 clock progress pair).results.length = progress.results.length + 1 := by
  obtain ⟨key, data⟩ := pair
  simp only [setOne]
  split
  · exact ⟨inlines _ _ _, List.length_append⟩
  · split
    · exact ⟨inlines _ _ _, List.length_append⟩
    · split
      all_goals
        next returned =>
          have same := congrArg (fun inserted => part inserted.1) returned
          exact ⟨same.symm.trans (extents _ _ _), List.length_append⟩

/-- The retry loop replaces results and adds none, and leaves alone what inserts of extents do. -/
theorem retryFailed_part
    (extents : ∀ connector hk data, part (insertLarge connector hk data).1 = part connector)
    (connector : RdmaNativeConnector) (pairs : List (Bytes × Bytes)) (results : List Bool) :
    part (connector.retryFailed xxh64 pairs results).1 = part connector ∧
      (connector.retryFailed xxh64 pairs results).2.length = results.length := by
  induction pairs generalizing connector results with
  | nil => exact ⟨rfl, rfl⟩
  | cons pair pairs ih =>
    obtain ⟨key, data⟩ := pair
    cases results with
    | nil => exact ⟨rfl, rfl⟩
    | cons ok results =>
      have onward : ∀ next, part next = part connector → ∀ now,
          part (next.retryFailed xxh64 pairs results).1 = part connector ∧
            (now :: (next.retryFailed xxh64 pairs results).2).length = (ok :: results).length := by
        intro next same now
        obtain ⟨kept, count⟩ := ih next results
        exact ⟨kept.trans same, by rw [List.length_cons, count, List.length_cons]⟩
      simp only [retryFailed]
      cases ok with
      | true => exact onward connector rfl true
      | false =>
        simp only [Bool.false_eq_true, if_false]
        split
        · split
          all_goals
            next returned =>
              have same := congrArg (fun inserted => part inserted.1) returned
              exact onward _ (same.symm.trans (extents _ _ _)) _
        · exact onward connector rfl false

end Loops

end Rdmas.Soundness
