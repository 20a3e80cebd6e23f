import Mathlib.Data.List.Sort

/-! # The LRU tracker

`engine/lru.rs`. The clock reading of an access is an argument. The hash map of last accesses is a list
with one pair a key; where the source iterates it, the order is an argument.
-/

namespace Rdmas.Model

/-- The order in which the map of last accesses is iterated. -/
abbrev AccessOrder := List (BitVec 64 × ℕ) → List (BitVec 64 × ℕ)

structure LruTracker where
  accesses : List (BitVec 64 × ℕ)
  lastAccess : List (BitVec 64 × ℕ)
  keyCount : ℕ
  watermark : ℕ
  evicted : ℕ
deriving DecidableEq, Repr

namespace LruTracker

def new (watermark : ℕ) : LruTracker := ⟨[], [], 0, watermark, 0⟩

def recordAccess (lru : LruTracker) (keyHash : BitVec 64) (now : ℕ) : LruTracker :=
  { lru with accesses := lru.accesses ++ [(keyHash, now)], keyCount := lru.keyCount + 1 }

def needsEviction (lru : LruTracker) : Bool := lru.keyCount > lru.watermark

/-- `HashMap::insert`. -/
def insertAccess (lastAccess : List (BitVec 64 × ℕ)) (record : BitVec 64 × ℕ) :
    List (BitVec 64 × ℕ) := record :: lastAccess.filter fun entry => entry.1 != record.1

/-- Drain the access queue into the map and take the `n` keys whose last access is oldest. -/
def selectEvictionCandidates (lru : LruTracker) (iterate : AccessOrder) (n : ℕ) :
    LruTracker × List (BitVec 64) :=
  let merged := lru.accesses.foldl insertAccess lru.lastAccess
  let drained := { lru with accesses := [], lastAccess := merged, keyCount := merged.length }
  if merged.isEmpty || n == 0 then (drained, [])
  else
    -- A stable sort: keys last accessed at the same time stay in iteration order.
    let sorted := (iterate merged).insertionSort fun left right => left.2 ≤ right.2
    let candidates := (sorted.take (min n sorted.length)).map Prod.fst
    let remaining := merged.filter fun entry => !candidates.contains entry.1
    ({ drained with lastAccess := remaining, keyCount := remaining.length }, candidates)

def incrementEvicted (lru : LruTracker) (delta : ℕ) : LruTracker :=
  { lru with evicted := lru.evicted + delta }

end LruTracker

end Rdmas.Model
