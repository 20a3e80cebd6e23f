import Rdmas.Model.Extent
import Rdmas.Model.Lru

/-! # The epoch collector

`engine/gc.rs`. Clock readings are arguments: one where a function reads the clock once, the sequence of
its readings where it reads it repeatedly. A sweep iterates the hash set of allocated offsets; an
`Enumeration` is the order in which it does. The subtraction of `maybe_sweep` and `is_sweep_due` wraps, as
in a release build; it never does so while the clock does not go back. The `checked` versions are those of a
build with overflow checks, where `none` is the panic.
-/

namespace Rdmas.Model

open LittleEndian

/-- The order in which a hash set of offsets is iterated. -/
structure Enumeration where
  list : Finset ℕ → List ℕ
  nodup : ∀ offsets, (list offsets).Nodup
  complete : ∀ offsets, (list offsets).toFinset = offsets

theorem Enumeration.mem_list (order : Enumeration) {offsets : Finset ℕ} {offset : ℕ} :
    offset ∈ order.list offsets ↔ offset ∈ offsets := by
  rw [← List.mem_toFinset, order.complete]

structure EpochGc where
  pending : List (BitVec 64 × BitVec 64)
  sweepIntervalMs : BitVec 64
  lastSweep : BitVec 64
  lru : Option LruTracker

/-- What an LRU eviction is told from outside: how the map of last accesses and the set of allocated
offsets are iterated, and what the clock shows each time it is read. -/
structure EvictionInputs where
  iterate : AccessOrder
  order : Enumeration
  clock : ℕ → BitVec 32

namespace EpochGc

def new (sweepIntervalMs : BitVec 64) (now : BitVec 32) : EpochGc :=
  ⟨[], sweepIntervalMs, now.setWidth 64, none⟩

def withLru (sweepIntervalMs : BitVec 64) (lruTracker : LruTracker) (now : BitVec 32) : EpochGc :=
  ⟨[], sweepIntervalMs, now.setWidth 64, some lruTracker⟩

variable (gc : EpochGc)

def scheduleDeletion (offset : BitVec 64) (now : BitVec 32) : EpochGc :=
  { gc with pending := gc.pending ++ [(offset, now.setWidth 64)] }

/-- Write the pending epochs into the headers; the error of an invalid offset is dropped. -/
def markPending (region : LargeObjectRegion) (pending : List (BitVec 64 × BitVec 64)) : LargeObjectRegion :=
  pending.foldl (fun region entry => (region.markForGc entry.1.toNat entry.2).1) region

/-- Mark what is pending, reclaim what is older than the oldest active timestamp, and forget the pending
list. -/
def sweep (region : LargeObjectRegion) (order : Enumeration)
    (minActiveTs : BitVec 32) : EpochGc × LargeObjectRegion × ℕ :=
  let marked := markPending region gc.pending
  let (swept, freed) := marked.sweep (minActiveTs.setWidth 64) (order.list marked.allocated)
  ({ gc with pending := [] }, swept, freed)

/-- The pending list once the candidates of an eviction are scheduled, each at its own reading. -/
def scheduleAll (candidates : List (BitVec 64)) (clock : ℕ → BitVec 32) : EpochGc :=
  candidates.zipIdx.foldl (fun gc candidate => gc.scheduleDeletion candidate.1 (clock candidate.2)) gc

/-- Evict up to `n` least-recently-used entries: schedule their key hashes and sweep with the present
time. -/
def evictLru (region : LargeObjectRegion) (n : ℕ) (inputs : EvictionInputs) : EpochGc × LargeObjectRegion × ℕ :=
  match gc.lru with
  | none => (gc, region, 0)
  | some lru =>
    let (lru, candidates) := lru.selectEvictionCandidates inputs.iterate n
    let gc := { gc with lru := some lru }
    if candidates.isEmpty then (gc, region, 0)
    else
      let evictedCount := candidates.length
      let scheduled := gc.scheduleAll candidates inputs.clock
      let minTs := inputs.clock evictedCount
      let (gc, region, _) := scheduled.sweep region inputs.order minTs
      ({ gc with lru := gc.lru.map fun lru => lru.incrementEvicted evictedCount }, region, evictedCount)

/-- Sweep if the interval has elapsed; evict before that, or instead of it, if the tracker is above its
watermark. -/
def maybeSweep (region : LargeObjectRegion) (order : Enumeration)
    (minActiveTs now : BitVec 32) (inputs : EvictionInputs) : EpochGc × LargeObjectRegion × ℕ :=
  if now.setWidth 64 - gc.lastSweep < gc.sweepIntervalMs then
    match gc.lru with
    | none => (gc, region, 0)
    | some lru =>
      if lru.needsEviction then
        gc.evictLru region (max ((lru.keyCount - min lru.keyCount 1) / 10) 1) inputs
      else (gc, region, 0)
  else
    let gc := { gc with lastSweep := now.setWidth 64 }
    let (gc, region) := match gc.lru with
      | none => (gc, region)
      | some lru =>
        if lru.needsEviction then
          let (gc, region, _) := gc.evictLru region (max (lru.keyCount / 10) 1) inputs
          (gc, region)
        else (gc, region)
    gc.sweep region order minActiveTs

/-- Check if a sweep is due. -/
def isSweepDue (now : BitVec 32) : Bool :=
  now.setWidth 64 - gc.lastSweep ≥ gc.sweepIntervalMs

def checkedMaybeSweep (region : LargeObjectRegion) (order : Enumeration)
    (minActiveTs now : BitVec 32) (inputs : EvictionInputs) : Option (EpochGc × LargeObjectRegion × ℕ) :=
  if now.setWidth 64 < gc.lastSweep then none
  else some (gc.maybeSweep region order minActiveTs now inputs)

def checkedIsSweepDue (now : BitVec 32) : Option Bool :=
  if now.setWidth 64 < gc.lastSweep then none else some (gc.isSweepDue now)

end EpochGc

/-- `iter().min().unwrap_or(0)`. -/
def minTimestamp : List (BitVec 32) → BitVec 32
  | [] => 0
  | first :: rest => rest.foldl (fun least ts => if ts < least then ts else least) first

/-- One cycle of the collector thread: sweep with the oldest of the clients' timestamps, if there is
any. -/
def runGcCycle (gc : EpochGc) (region : LargeObjectRegion) (order : Enumeration)
    (clientActiveTimestamps : List (BitVec 32)) : EpochGc × LargeObjectRegion × ℕ :=
  if clientActiveTimestamps.isEmpty then (gc, region, 0)
  else gc.sweep region order (minTimestamp clientActiveTimestamps)

end Rdmas.Model
