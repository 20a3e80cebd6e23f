import Mathlib.Data.List.Perm.Basic
import Mathlib.Logic.Function.Basic
import Rdmas.Model.Lru

/-! # The LRU tracker between threads

`record_access` and `select_eviction_candidates` of `engine/lru.rs` on any number of threads. An access reads
the clock, pushes its record and adds to the key count, each on its own. A selection pops records until the
queue is empty and merges them into the map under the mutex; there it stores the size of the map as the key
count, before and after it takes out its candidates.
-/

namespace Rdmas.Model

/-- Where a thread stands. -/
inductive LruPc where
  | idle
  /-- `record_access` has read the clock. -/
  | stamped (keyHash : BitVec 64) (now : ℕ)
  /-- `record_access` has pushed its record and not counted it. -/
  | pushed
  | draining (n : ℕ) (records : List (BitVec 64 × ℕ))
  /-- A pop found the queue empty; the mutex comes next. -/
  | drained (n : ℕ) (records : List (BitVec 64 × ℕ))
  /-- The records are merged and the mutex is held. -/
  | merged (n : ℕ)
deriving DecidableEq, Repr

inductive LruLabel (ι : Type) where
  | stamp (thread : ι) (keyHash : BitVec 64) (now : ℕ)
  | push (thread : ι)
  | count (thread : ι)
  | beginSelect (thread : ι) (n : ℕ)
  | pop (thread : ι)
  | merge (thread : ι)
  /-- The map is iterated in the given order. -/
  | choose (thread : ι) (order : List (BitVec 64 × ℕ))
deriving DecidableEq, Repr

structure SharedLru (ι : Type) where
  lru : LruTracker
  lockedBy : Option ι
  threads : ι → LruPc

namespace LruTracker

def pushAccess (lru : LruTracker) (record : BitVec 64 × ℕ) : LruTracker :=
  { lru with accesses := lru.accesses ++ [record] }

def countAccess (lru : LruTracker) : LruTracker := { lru with keyCount := lru.keyCount + 1 }

def mergeRecords (lru : LruTracker) (records : List (BitVec 64 × ℕ)) : LruTracker :=
  let merged := records.foldl insertAccess lru.lastAccess
  { lru with lastAccess := merged, keyCount := merged.length }

/-- The `n` oldest of the entries, in the order in which the map is iterated. -/
def candidates (order : List (BitVec 64 × ℕ)) (n : ℕ) : List (BitVec 64) :=
  let sorted := order.insertionSort fun left right => left.2 ≤ right.2
  (sorted.take (min n sorted.length)).map Prod.fst

def takeOut (lru : LruTracker) (keys : List (BitVec 64)) : LruTracker :=
  let remaining := lru.lastAccess.filter fun entry => !keys.contains entry.1
  { lru with lastAccess := remaining, keyCount := remaining.length }

end LruTracker

namespace SharedLru

variable {ι : Type} [DecidableEq ι]

def initial (watermark : ℕ) : SharedLru ι := ⟨.new watermark, none, fun _ => .idle⟩

def setThread (state : SharedLru ι) (thread : ι) (pc : LruPc) : SharedLru ι :=
  { state with threads := Function.update state.threads thread pc }

/-- One step; `none` where the label does not fit. -/
def step (state : SharedLru ι) : LruLabel ι → Option (SharedLru ι)
  | .stamp thread keyHash now =>
      match state.threads thread with
      | .idle => some (state.setThread thread (.stamped keyHash now))
      | _ => none
  | .push thread =>
      match state.threads thread with
      | .stamped keyHash now => some { state.setThread thread .pushed with
          lru := state.lru.pushAccess (keyHash, now) }
      | _ => none
  | .count thread =>
      match state.threads thread with
      | .pushed => some { state.setThread thread .idle with lru := state.lru.countAccess }
      | _ => none
  | .beginSelect thread n =>
      match state.threads thread with
      | .idle => some (state.setThread thread (.draining n []))
      | _ => none
  | .pop thread =>
      match state.threads thread, state.lru.accesses with
      | .draining n records, [] => some (state.setThread thread (.drained n records))
      | .draining n records, record :: rest =>
          some { state.setThread thread (.draining n (records ++ [record])) with
            lru := { state.lru with accesses := rest } }
      | _, _ => none
  | .merge thread =>
      match state.threads thread, state.lockedBy with
      | .drained n records, none =>
          let lru := state.lru.mergeRecords records
          -- Nothing to choose from, or nothing asked for: the call returns and drops the guard.
          if lru.lastAccess.isEmpty || n == 0 then some { state.setThread thread .idle with lru }
          else some { state.setThread thread (.merged n) with lru, lockedBy := some thread }
      | _, _ => none
  | .choose thread order =>
      match state.threads thread with
      | .merged n =>
          if order.Perm state.lru.lastAccess then
            some { state.setThread thread .idle with
              lru := state.lru.takeOut (LruTracker.candidates order n), lockedBy := none }
          else none
      | _ => none

end SharedLru

end Rdmas.Model
