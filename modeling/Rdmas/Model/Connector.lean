import Rdmas.Model.Cuckoo
import Rdmas.Model.Extent
import Rdmas.Model.Lru

/-! # The LMCache connector

`RDMANativeConnector` in its local mode, where every batch is processed inside the `submit_*` call. A key
is its UTF-8 bytes, a memoryview the bytes `tobytes` extracts from it (none if that fails). XXH64 is a
parameter. A panic while the locks are held poisons them, and every later batch panics at its first
lock.
-/

namespace Rdmas.Model

open LittleEndian FixedBytes

/-- XXH64 with seed 0 is the hash; the digest holds the hash and XXH64 with seed 1. -/
def hashLmcacheKey (xxh64 : Xxh64) (key : Bytes) : HashedKey :=
  let hash := xxh64 key 0
  let h2 := xxh64 key 1
  ⟨hash, copyFromSlice (copyFromSlice (zeros 16) 0 (encode 8 hash.toNat)) 8 (encode 8 h2.toNat)⟩

/-- The minimal key that eviction builds from a hash. -/
def evictionKey (keyHash : BitVec 64) : HashedKey :=
  ⟨keyHash, copyFromSlice (zeros 16) 0 (encode 8 keyHash.toNat)⟩

/-- Completed batch operation result. -/
structure Completion where
  futureId : ℕ
  ok : Bool
  error : String
  perKeyBools : Option (List Bool)
deriving DecidableEq, Repr

structure RdmaNativeConnector where
  table : CuckooTable
  largeObjects : LargeObjectRegion
  nextId : ℕ
  completions : List Completion
  lru : LruTracker
  poisoned : Bool

namespace RdmaNativeConnector

/-- A connector over a fresh engine of the given sizes. -/
def create (bucketCount maxKick regionSize watermark : ℕ)
    (powerOfTwo : bucketCount.isPowerOfTwo) : RdmaNativeConnector :=
  ⟨.new bucketCount maxKick powerOfTwo, .new regionSize, 1, [], .new watermark, false⟩

/-- The sizes the constructor chooses. -/
def new (batchChunkNumBytes : ℕ) : RdmaNativeConnector :=
  create (2 ^ 20) 16 (batchChunkNumBytes * 10) (max (batchChunkNumBytes * 10 / 256) 1000) ⟨20, rfl⟩

def pushCompletion (connector : RdmaNativeConnector) (futureId : ℕ) (results : List Bool) :
    RdmaNativeConnector :=
  { connector with completions := connector.completions ++ [⟨futureId, true, "", some results⟩] }

/-- `table.insert(..)` in Inline mode, and whether it succeeded. -/
def insertInline (connector : RdmaNativeConnector) (hk : HashedKey) (data : Bytes) :
    RdmaNativeConnector × Bool :=
  let (table, result) := connector.table.insert hk data .inline
  ({ connector with table }, result.isOk)

/-- Allocate an extent and refer to it from the table; nothing if the allocation fails. The extent is
kept when the table insert fails. -/
def insertLarge (connector : RdmaNativeConnector) (hk : HashedKey) (data : Bytes) :
    RdmaNativeConnector × Option Bool :=
  match connector.largeObjects.allocate data with
  | (largeObjects, some offset) =>
      let (table, result) :=
        connector.table.insertExtent hk (BitVec.ofNat 64 offset) (BitVec.ofNat 64 data.length)
      ({ connector with table, largeObjects }, some result.isOk)
  | (largeObjects, none) => ({ connector with largeObjects }, none)

/-- The connector once a call has drawn its future id, with `next_id.fetch_add`. -/
abbrev counted (connector : RdmaNativeConnector) : RdmaNativeConnector :=
  { connector with nextId := connector.nextId + 1 }

/-- The variables of the first loop of `submit_batch_set`. -/
structure SetProgress where
  connector : RdmaNativeConnector
  results : List Bool
  evictionNeeded : Bool

/-- One iteration of the first loop. -/
def setOne (xxh64 : Xxh64) (clock : ℕ → ℕ) (progress : SetProgress) : Bytes × Bytes → SetProgress
  | (key, data) =>
      let hk := hashLmcacheKey xxh64 key
      let now := clock progress.results.length
      let connector := { progress.connector with
        lru := progress.connector.lru.recordAccess hk.hash now }
      if data.isEmpty && !key.isEmpty then
        let (connector, ok) := connector.insertInline hk data
        ⟨connector, progress.results ++ [ok], progress.evictionNeeded⟩
      else
        let mode := if data.length ≤ 32 then BucketMode.inline else .extent
        match mode with
        | .inline =>
            let (connector, ok) := connector.insertInline hk data
            ⟨connector, progress.results ++ [ok], progress.evictionNeeded⟩
        | .extent =>
            match connector.insertLarge hk data with
            | (connector, some ok) => ⟨connector, progress.results ++ [ok], progress.evictionNeeded⟩
            | (connector, none) => ⟨connector, progress.results ++ [false], true⟩

/-- The first loop of `submit_batch_set`. -/
def setAll (xxh64 : Xxh64) (connector : RdmaNativeConnector)
    (pairs : List (Bytes × Bytes)) (clock : ℕ → ℕ) : SetProgress :=
  pairs.foldl (setOne xxh64 clock) ⟨connector, [], false⟩

/-- Delete the candidates of the LRU tracker from the table; their extents stay allocated. -/
def evictIfNeeded (connector : RdmaNativeConnector) (iterate : AccessOrder) : RdmaNativeConnector :=
  if !connector.lru.needsEviction then connector
  else
    let n := max (connector.lru.keyCount / 10) 1
    let (lru, candidates) := connector.lru.selectEvictionCandidates iterate n
    if candidates.isEmpty then { connector with lru }
    else
      let table := candidates.foldl (fun table keyHash => (table.delete (evictionKey keyHash)).1)
        connector.table
      { connector with table, lru := lru.incrementEvicted candidates.length }

/-- The second loop of `submit_batch_set`: retry the extents that failed. -/
def retryFailed (xxh64 : Xxh64) (connector : RdmaNativeConnector) :
    List (Bytes × Bytes) → List Bool → RdmaNativeConnector × List Bool
  | (key, data) :: pairs, ok :: results =>
      let (connector, ok) :=
        if ok then (connector, ok)
        else if data.length > 32 then
          match connector.insertLarge (hashLmcacheKey xxh64 key) data with
          | (connector, some ok) => (connector, ok)
          | (connector, none) => (connector, false)
        else (connector, ok)
      let (connector, results) := connector.retryFailed xxh64 pairs results
      (connector, ok :: results)
  | _, results => (connector, results)

/-- Submit an async batch write; nothing is returned if the call panics. -/
def submitBatchSet (xxh64 : Xxh64) (connector : RdmaNativeConnector) (keys mvs : List Bytes) (clock : ℕ → ℕ)
    (iterate : AccessOrder) : RdmaNativeConnector × Option ℕ :=
  let futureId := connector.nextId
  let counted := connector.counted
  if connector.poisoned then (counted, none)
  else
    let first := counted.setAll xxh64 (keys.zip mvs) clock
    if first.evictionNeeded then
      let evicted := first.connector.evictIfNeeded iterate
      let (retried, results) := evicted.retryFailed xxh64 (keys.zip mvs) first.results
      -- A key without a memoryview has no result: `results[i]` is out of bounds.
      if mvs.length < keys.length then ({ retried with poisoned := true }, none)
      else (retried.pushCompletion futureId results, some futureId)
    else (first.connector.pushCompletion futureId first.results, some futureId)

/-- Submit an async batch existence check. -/
def submitBatchExists (xxh64 : Xxh64) (connector : RdmaNativeConnector)
    (keys : List Bytes) : RdmaNativeConnector × Option ℕ :=
  let futureId := connector.nextId
  let counted := connector.counted
  if connector.poisoned then (counted, none)
  else
    let results := keys.map fun key => (connector.table.lookup (hashLmcacheKey xxh64 key)).isSome
    (counted.pushCompletion futureId results, some futureId)

/-- Submit an async batch read. The local mode records which keys exist. -/
def submitBatchGet (xxh64 : Xxh64) (connector : RdmaNativeConnector)
    (keys : List Bytes) : RdmaNativeConnector × Option ℕ :=
  connector.submitBatchExists xxh64 keys

/-- The loop of `submit_batch_delete`. -/
def deleteKeys (xxh64 : Xxh64) (table : CuckooTable) : List Bytes → CuckooTable × List Bool
  | [] => (table, [])
  | key :: keys =>
      let (table, found) := table.delete (hashLmcacheKey xxh64 key)
      let (table, results) := deleteKeys xxh64 table keys
      (table, found :: results)

/-- Submit an async batch delete. -/
def submitBatchDelete (xxh64 : Xxh64) (connector : RdmaNativeConnector)
    (keys : List Bytes) : RdmaNativeConnector × Option ℕ :=
  let futureId := connector.nextId
  let counted := connector.counted
  if connector.poisoned then (counted, none)
  else
    let (table, results) := deleteKeys xxh64 connector.table keys
    ({ counted with table }.pushCompletion futureId results, some futureId)

end RdmaNativeConnector

end Rdmas.Model
