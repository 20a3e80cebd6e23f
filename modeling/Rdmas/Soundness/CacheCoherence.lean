import Rdmas.Soundness.ClientRead
import Rdmas.Soundness.Connector

/-! # The cache loses entries, but it is never stale

A full table drops an entry, a full region refuses one, and an eviction takes entries away. None of this
brings an old value back: of each key the table holds one entry at most, an insertion of the key replaces
it, and an extent is never released, so nobody else writes over it.
-/

namespace Rdmas.Soundness

open Rdmas.Model LittleEndian Runs Function

section Table

variable {table : CuckooTable}

/-- After a call, successful or not, the table holds the entry the call stores and old ones of other
keys. -/
theorem TableOp.mem_apply (valid : WellPlaced table) (op : TableOp) {entry : Entry}
    (member : entry ∈ liveEntries (op.apply table).1) :
    op.storedEntry = some entry ∨ entry ∈ liveEntries table ∧ entry.key ≠ op.key := by
  cases stores : op.storedEntry with
  | none =>
    obtain ⟨key, rfl⟩ := op.eq_delete stores
    change entry ∈ liveEntries (table.delete key).1 at member
    rw [liveEntries_delete valid, Multiset.mem_filter] at member
    exact .inr member
  | some own =>
    rw [apply_of_storedEntry stores] at member
    rw [key_of_storedEntry stores]
    split at member
    · next zero => exact .inr ⟨member, key_ne_of_hash_eq_zero zero entry member⟩
    · next nonzero =>
        obtain ⟨_, trade, ⟨_, kept⟩ | ⟨_, absent, _⟩⟩ := insertRaw_spec valid nonzero
        · rw [kept, Multiset.mem_add, Multiset.mem_filter, Multiset.mem_singleton] at member
          exact member.symm.imp (fun same => congrArg some same.symm) id
        · -- The key was not there: every old entry is another key's.
          have among : entry ∈ liveEntries table + {own} := trade ▸ Multiset.mem_add.mpr (.inl member)
          rw [Multiset.mem_add, Multiset.mem_singleton] at among
          exact among.symm.imp (fun same => congrArg some same.symm) fun old => ⟨old, absent entry old⟩

end Table

/-- What was last written under each key, as a reader should get it. -/
abbrev Newest := HashedKey → Option ReadResult

namespace StoreOp

def key : StoreOp → HashedKey
  | .inline key _ | .extent key _ | .delete key => key

def written : StoreOp → Option ReadResult
  | .inline _ data => some ⟨padded (data.take 32), .inline⟩
  | .extent _ data => some ⟨data, .extent⟩
  | .delete _ => none

end StoreOp

namespace Store

/-- The region has no room for the data, so nothing is written. A write that the table answers with
`TableFull` counts as written: it may have displaced another entry and stand in the table. -/
def refuses (store : Store) : StoreOp → Bool
  | .extent _ data => (store.largeObjects.allocate data).2.isNone
  | .inline _ _ | .delete _ => false

def remember (store : Store) (newest : Newest) (op : StoreOp) : Newest :=
  if store.refuses op then newest else update newest op.key op.written

/-- What is remembered after a sequence of operations. -/
def rememberAll (store : Store) (newest : Newest) : List StoreOp → Newest
  | [] => newest
  | op :: rest => (store.apply op).rememberAll (store.remember newest op) rest

end Store

section Contents

variable {store final : Store} {newest : Newest} {ledger : Ledger}

/-- An entry shows a value: its body, or the live extent it refers to. -/
def Shows (ledger : Ledger) (entry : Entry) (value : Option ReadResult) : Prop :=
  (entry.mode = .inline ∧ value = some ⟨entry.body.toList, .inline⟩) ∨
    ∃ offset data, entry.mode = .extent ∧
      HashBucket.extentRefOf entry.body = (BitVec.ofNat 64 offset, BitVec.ofNat 64 data.length) ∧
      ledger offset = some ⟨.v2, data, 0, true⟩ ∧ value = some ⟨data, .extent⟩

/-- Every live entry shows what was last written under its key. -/
structure Current (newest : Newest) (store : Store) (ledger : Ledger) : Prop where
  tracked : Tracked store
  accounted : RegionState.Accounted ⟨store.largeObjects, ledger⟩
  unlocked : Unlocked store.table
  shown : ∀ entry ∈ liveEntries store.table, Shows ledger entry (newest entry.key)

namespace Current

variable (current : Current newest store ledger)
include current

/-- A call on the table stores an entry that shows what is remembered of it. -/
theorem shown_apply (op : TableOp) {later : Ledger} {value : Option ReadResult}
    (kept : ∀ entry ∈ liveEntries store.table, Shows later entry (newest entry.key))
    (own : ∀ entry, op.storedEntry = some entry → Shows later entry value) :
    ∀ entry ∈ liveEntries (op.apply store.table).1,
      Shows later entry (update newest op.key value entry.key) := by
  intro entry member
  rcases op.mem_apply current.tracked.placed member with stored | ⟨old, other⟩
  · rw [op.key_of_storedEntry stored, update_self]
    exact own entry stored
  · rw [update_of_ne other]
    exact kept entry old

/-- An allocation leaves the extents alone that entries refer to. -/
theorem shown_enter (data : Bytes) :
    ∀ entry ∈ liveEntries store.table,
      Shows (RegionState.enter ledger (some store.largeObjects.nextOffset) ⟨.v2, data, 0, true⟩) entry
        (newest entry.key) := by
  intro entry member
  rcases current.shown entry member with inline | ⟨offset, payload, extent, refers, recorded, value⟩
  · exact .inl inline
  · have allocated := (current.accounted.allocated offset).mpr ⟨_, recorded, rfl⟩
    have differs : offset ≠ store.largeObjects.nextOffset :=
      fun same => current.tracked.vacant (same ▸ allocated)
    refine .inr ⟨offset, payload, extent, refers, ?_, value⟩
    rw [RegionState.enter, update_of_ne differs, recorded]

theorem apply {op : StoreOp} (licensed : Licensed (fun _ _ => True) op) :
    ∃ later, Current (store.remember newest op) (store.apply op) later := by
  have tracked := current.tracked.apply op
  cases op with
  | inline key data =>
    refine ⟨ledger, tracked, current.accounted,
      TableOp.unlocked_apply current.unlocked (.insert key data .inline), ?_⟩
    refine current.shown_apply (.insert key data .inline) current.shown fun entry stored => ?_
    cases stored
    refine .inl ⟨rfl, ?_⟩
    rw [StoreOp.written, toList_packBody]
  | extent key data =>
    have accounted := current.accounted.allocate licensed.2
    rcases allocate_cases current.tracked.unreleased data with ⟨_, next, returned, _⟩ | ⟨_, returned⟩
    · simp only [Store.apply, Store.remember, Store.refuses, returned] at tracked accounted ⊢
      refine ⟨_, tracked, accounted,
        TableOp.unlocked_apply current.unlocked (.insertExtent key _ _), ?_⟩
      refine current.shown_apply (.insertExtent key _ _) (current.shown_enter data) fun entry stored => ?_
      cases stored
      exact .inr ⟨_, data, rfl, extentRefOf_extentBody _ _, update_self .., rfl⟩
    · simp only [Store.apply, Store.remember, Store.refuses, returned]
      exact ⟨ledger, current⟩
  | delete key =>
    refine ⟨ledger, tracked, current.accounted, TableOp.unlocked_apply current.unlocked (.delete key), ?_⟩
    exact current.shown_apply (.delete key) current.shown fun entry stored => by cases stored

theorem run {ops : List StoreOp} (licensed : ∀ op ∈ ops, Licensed (fun _ _ => True) op)
    (reached : Runs.run Store.step store ops = some final) :
    ∃ later, Current (store.rememberAll newest ops) final later := by
  induction ops generalizing store newest ledger with
  | nil => exact ⟨ledger, Option.some.inj reached ▸ current⟩
  | cons op rest ih =>
    obtain ⟨first, later⟩ := List.forall_mem_cons.mp licensed
    obtain ⟨next, taken, onward⟩ := run_cons_eq_some.mp reached
    cases taken
    obtain ⟨middle, applied⟩ := current.apply first
    exact ih applied later onward

/-- A reader finds nothing, or what was last written. -/
theorem get {key : HashedKey} (nonzero : key.hash ≠ 0) :
    ClientReader.get key store.table.buckets (some store.largeObjects) store.table.bucketCount = .ok none ∨
      ClientReader.get key store.table.buckets (some store.largeObjects) store.table.bucketCount =
        .ok (newest key) := by
  rw [get_eq_lookup current.tracked.placed current.unlocked nonzero]
  cases found : store.table.lookup key with
  | none => exact .inl rfl
  | some result =>
    obtain ⟨entry, member, rfl, rfl⟩ := (lookup_eq_some_iff current.tracked.placed nonzero).mp found
    refine .inr (congrArg Except.ok ?_)
    rcases current.shown entry member with ⟨inline, value⟩ | ⟨offset, data, extent, refers, recorded, value⟩
    · simp [Entry.result, LookupResult.readValue, inline, value]
    · have reads := current.accounted.read_eq recorded
      have inside : offset + 24 ≤ store.largeObjects.size := current.accounted.header_fits recorded
      have limit := current.tracked.bounded
      have atOffset : (BitVec.ofNat 64 offset).toNat = offset := by
        rw [BitVec.toNat_ofNat, Nat.mod_eq_of_lt (by omega)]
      simpa [Entry.result, LookupResult.readValue, extent, refers, value, atOffset] using reads

end Current

end Contents

/-- A connector, with what was last written to its store under each key. -/
structure RememberingConnector where
  connector : RdmaNativeConnector
  newest : Newest

namespace RememberingConnector

/-- A connector over a fresh engine; nothing was written. -/
def create (bucketCount maxKick regionSize watermark : ℕ)
    (powerOfTwo : bucketCount.isPowerOfTwo) : RememberingConnector :=
  ⟨.create bucketCount maxKick regionSize watermark powerOfTwo, fun _ => none⟩

/-- A batch; the store operations it performs are remembered. -/
def step (xxh64 : Xxh64) (state : RememberingConnector) (op : ConnectorOp) : Option RememberingConnector :=
  some ⟨op.apply xxh64 state.connector,
    (storeOf state.connector).rememberAll state.newest (op.trace xxh64 state.connector)⟩

/-- What a local reader of the connector's table and region finds. -/
def find (state : RememberingConnector) (key : HashedKey) : Except RdmaError (Option ReadResult) :=
  ClientReader.get key state.connector.table.buckets (some state.connector.largeObjects)
    state.connector.table.bucketCount

end RememberingConnector

private theorem current_create {bucketCount : ℕ} (maxKick regionSize watermark : ℕ)
    (powerOfTwo : bucketCount.isPowerOfTwo) (two : 2 ≤ bucketCount) (bounded : regionSize < 2 ^ 64) :
    Current (fun _ => none) (storeOf (.create bucketCount maxKick regionSize watermark powerOfTwo))
      fun _ => none := by
  refine ⟨tracked_create maxKick regionSize watermark powerOfTwo two bounded,
    RegionState.accounted_fresh regionSize, unlocked_new bucketCount maxKick powerOfTwo, ?_⟩
  intro entry member
  have nobody : entry ∈ (0 : Multiset Entry) := liveEntries_new bucketCount maxKick powerOfTwo ▸ member
  exact absurd nobody (Multiset.notMem_zero entry)

/-- After every sequence of batches with data shorter than 4 GiB, whatever was refused, dropped or evicted: a
reader of a key finds nothing, or what the last write under that key for which the region had room has stored;
after a deletion it finds nothing until there is such a write. -/
theorem cache_finds_nothing_or_newest (xxh64 : Xxh64) {bucketCount : ℕ}
    (maxKick regionSize watermark : ℕ) (powerOfTwo : bucketCount.isPowerOfTwo)
    (two : 2 ≤ bucketCount) (bounded : regionSize < 2 ^ 64) (ops : List ConnectorOp)
    (short : ∀ op ∈ ops, ∀ pair ∈ op.pairs, pair.2.length < 2 ^ 32) {final : RememberingConnector}
    (reached : run (RememberingConnector.step xxh64)
      (.create bucketCount maxKick regionSize watermark powerOfTwo) ops = some final)
    {key : HashedKey} (nonzero : key.hash ≠ 0) :
    final.find key = .ok none ∨ final.find key = .ok (final.newest key) := by
  have keep : ∀ {state op next}, (∃ ledger, Current state.newest (storeOf state.connector) ledger) →
      (∀ pair ∈ op.pairs, pair.2.length < 2 ^ 32) → RememberingConnector.step xxh64 state op = some next →
      ∃ ledger, Current next.newest (storeOf next.connector) ledger := by
    rintro state op next ⟨ledger, current⟩ short taken
    cases taken
    exact current.run (licensed_trace (fun pair given => ⟨trivial, short pair given⟩) state.connector)
      (ConnectorOp.run_trace state.connector op)
  obtain ⟨ledger, current⟩ := (throughout_of_forall short _).invariant keep
    ⟨_, current_create maxKick regionSize watermark powerOfTwo two bounded⟩ reached
  exact current.get nonzero

/-- A key is set to 33 bytes, overwritten by three and read. -/
theorem overwritten_key_finds_three_bytes : let xxh64 : Xxh64 := fun _ seed =>
      if seed = 0 then 0xD24EC4F1A98C6E5B else 0xDEC2BC81C3CD46C6
    let ops : List ConnectorOp := [.batchSet [[0x61]] [List.replicate 33 0x62] (fun _ => 0) id,
      .batchSet [[0x61]] [[1, 2, 3]] (fun _ => 0) id]
    ∃ final, run (RememberingConnector.step xxh64) (.create 8 4 4096 1000 ⟨3, rfl⟩) ops = some final ∧
      final.find (hashLmcacheKey xxh64 [0x61]) = .ok (some ⟨padded [1, 2, 3], .inline⟩) := by
  intro xxh64 ops
  refine ⟨_, rfl, ?_⟩
  rcases cache_finds_nothing_or_newest xxh64 4 4096 1000 ⟨3, rfl⟩ (by decide) (by decide) ops (by decide) rfl
    (show (hashLmcacheKey xxh64 [0x61]).hash ≠ 0 by decide) with missing | found
  · exact absurd missing (by decide +kernel)
  · exact found.trans (by decide +kernel)

end Rdmas.Soundness
