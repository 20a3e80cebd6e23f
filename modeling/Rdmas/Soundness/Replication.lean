import Rdmas.Math.Runs
import Rdmas.Model.Replication

/-! # The backup converges to the primary

The queue holds unclipped data, and the two stores clip at their own ends. Below the length of the local
store the clipping does not matter as long as the backup is no shorter: a clipped write and the plain one
agree there. So the queue, replayed by plain writes, turns the backup into the local store at any moment.

A backup that is shorter may be handed a write that starts beyond its end. The flush stops there, and what
is queued behind it is not applied.
-/

namespace Rdmas.Soundness

open Rdmas.Model LittleEndian ByteMemory

/-- Two memories with the same bytes below a bound. -/
def AgreeBelow (bound : ℕ) (left right : Memory) : Prop := ∀ query < bound, left query = right query

/-- The pending writes, applied in order. -/
def replay (objects : Memory) (pending : List (BitVec 64 × Bytes)) : Memory :=
  pending.foldl (fun objects entry => write objects entry.1.toNat entry.2) objects

section Clipping

variable {bound length offset : ℕ} {left right : Memory} {data : Bytes}

/-- A clipped copy succeeds inside the store and is the plain write below the end of it. -/
theorem copyClipped_eq (starts : offset ≤ length) (inside : bound ≤ length)
    (agree : AgreeBelow bound left right) :
    ∃ copied, copyClipped left length offset data = some copied ∧
      AgreeBelow bound copied (write right offset data) := by
  refine ⟨_, if_neg (by omega), ?_⟩
  intro query below
  by_cases written : offset ≤ query ∧ query < offset + data.length
  · obtain ⟨skip, rfl⟩ := Nat.exists_eq_add_of_le written.1
    rw [write_inside (by rw [List.length_take]; omega), write_inside (by omega)]
    have kept : skip < min (offset + data.length) length - offset := by omega
    simp only [List.getD_eq_getElem?_getD, List.getElem?_take_of_lt kept]
  · rw [write_outside (by rw [List.length_take]; omega), write_outside (by omega)]
    exact agree query below

/-- A flush that starts inside the backup at each entry makes of it what the replay makes of it. -/
theorem drain_eq {pending : List (BitVec 64 × Bytes)}
    (starts : ∀ entry ∈ pending, entry.1.toNat ≤ length) (agree : AgreeBelow length left right) :
    ∃ flushed, BackupStore.drain length left pending = some flushed ∧
      AgreeBelow length flushed (replay right pending) := by
  induction pending generalizing left right with
  | nil => exact ⟨left, rfl, agree⟩
  | cons entry rest ih =>
    obtain ⟨copied, copies, agrees⟩ := @copyClipped_eq _ _ _ _ _ entry.2
      (starts entry List.mem_cons_self) le_rfl agree
    obtain ⟨flushed, drains, final⟩ := ih (fun later member => starts later (List.mem_cons_of_mem _ member))
      agrees
    exact ⟨flushed, by rw [BackupStore.drain, copies, Option.bind_some, drains], final⟩

end Clipping

/-- The calls on a replication manager and the local store behind it. -/
inductive ReplicationOp where
  | writeWithReplication (offset : BitVec 64) (data : Bytes)
  | flushReplication
deriving DecidableEq, Repr

structure ReplicatedStore where
  manager : ReplicationManager
  localStore : Memory

namespace ReplicatedStore

/-- A zeroed local store with a fresh backup. -/
def fresh (capacity maxLag : ℕ) : ReplicatedStore := ⟨.new capacity maxLag, fun _ => 0⟩

def step (localLen : ℕ) (state : ReplicatedStore) : ReplicationOp → Option ReplicatedStore
  | .writeWithReplication offset data =>
      (state.manager.writeWithReplication offset data state.localStore localLen).map
        fun (manager, localStore) => ⟨manager, localStore⟩
  | .flushReplication => state.manager.flushReplication.map fun (manager, _) => { state with manager }

end ReplicatedStore

/-- A write starts inside the local store, or at its end. -/
def ReplicationOp.Starts (localLen : ℕ) : ReplicationOp → Prop
  | .writeWithReplication offset _ => offset.toNat ≤ localLen
  | .flushReplication => True

instance (localLen : ℕ) : (op : ReplicationOp) → Decidable (op.Starts localLen)
  | .writeWithReplication _ _ => inferInstanceAs (Decidable (_ ≤ _))
  | .flushReplication => inferInstanceAs (Decidable True)

/-- The queue leads from the backup to the local store. -/
structure Converging (localLen : ℕ) (state : ReplicatedStore) : Prop where
  covers : localLen ≤ state.manager.backup.capacity
  starts : ∀ entry ∈ state.manager.backup.pending, entry.1.toNat ≤ localLen
  replays : AgreeBelow localLen (replay state.manager.backup.objects state.manager.backup.pending)
    state.localStore

namespace Converging

variable {localLen : ℕ} {state : ReplicatedStore}

theorem flush (converging : Converging localLen state) :
    ∃ next, state.step localLen .flushReplication = some next ∧ Converging localLen next ∧
      next.localStore = state.localStore ∧ next.manager.backup.pending = [] ∧
      AgreeBelow localLen next.manager.backup.objects state.localStore := by
  obtain ⟨covers, starts, replays⟩ := converging
  obtain ⟨flushed, drains, agrees⟩ :=
    @drain_eq state.manager.backup.capacity _ _ state.manager.backup.pending
      (fun entry member => (starts entry member).trans covers)
      (fun query _ => rfl : AgreeBelow _ state.manager.backup.objects _)
  have agree : AgreeBelow localLen flushed state.localStore :=
    fun query below => (agrees query (by omega)).trans (replays query below)
  refine ⟨⟨⟨⟨flushed, state.manager.backup.capacity, []⟩, state.manager.maxLag⟩, state.localStore⟩, ?_,
    ⟨covers, by simp, agree⟩, rfl, rfl, agree⟩
  simp [ReplicatedStore.step, ReplicationManager.flushReplication, BackupStore.flush, drains]

theorem write (converging : Converging localLen state) {offset : BitVec 64} (data : Bytes)
    (inside : offset.toNat ≤ localLen) :
    ∃ next, state.step localLen (.writeWithReplication offset data) = some next ∧
      Converging localLen next := by
  obtain ⟨covers, starts, replays⟩ := converging
  obtain ⟨copied, copies, agrees⟩ := @copyClipped_eq localLen _ _ _ _ data inside le_rfl
    (fun query below => (replays query below).symm)
  refine ⟨⟨{ state.manager with backup := state.manager.backup.enqueueWrite offset data }, copied⟩,
    ?_, covers, ?_, ?_⟩
  · simp [ReplicatedStore.step, ReplicationManager.writeWithReplication, copies]
  · intro entry member
    rcases List.mem_append.mp member with old | new
    · exact starts entry old
    · rw [List.mem_singleton.mp new]
      exact inside
  · intro query below
    simp only [BackupStore.enqueueWrite, replay, List.foldl_append, List.foldl_cons, List.foldl_nil]
    exact (agrees query below).symm

/-- Every run goes through. -/
theorem run {ops : List ReplicationOp} (converging : Converging localLen state)
    (starts : ∀ op ∈ ops, op.Starts localLen) :
    ∃ final, Runs.run (ReplicatedStore.step localLen) state ops = some final ∧
      Converging localLen final := by
  induction ops generalizing state with
  | nil => exact ⟨state, rfl, converging⟩
  | cons op rest ih =>
    have advance : ∃ next, state.step localLen op = some next ∧ Converging localLen next := by
      cases op with
      | writeWithReplication offset data => exact converging.write data (starts _ List.mem_cons_self)
      | flushReplication =>
        obtain ⟨next, taken, onward, _⟩ := converging.flush
        exact ⟨next, taken, onward⟩
    obtain ⟨next, taken, onward⟩ := advance
    obtain ⟨final, reached, converges⟩ := ih onward
      fun later member => starts later (List.mem_cons_of_mem _ member)
    exact ⟨final, Runs.run_cons_eq_some.mpr ⟨next, taken, reached⟩, converges⟩

end Converging

/-- Over every sequence of writes and flushes no call panics, the queue always leads to the local store,
and after a flush the backup is there. -/
theorem backup_converges_to_primary {localLen capacity : ℕ} (covers : localLen ≤ capacity) (maxLag : ℕ)
    (ops : List ReplicationOp) (starts : ∀ op ∈ ops, op.Starts localLen) :
    ∃ state, Runs.run (ReplicatedStore.step localLen) (.fresh capacity maxLag) ops = some state ∧
      AgreeBelow localLen (replay state.manager.backup.objects state.manager.backup.pending)
        state.localStore ∧
      ∃ flushed, state.step localLen .flushReplication = some flushed ∧
        flushed.localStore = state.localStore ∧ flushed.manager.backup.pending = [] ∧
        AgreeBelow localLen flushed.manager.backup.objects flushed.localStore := by
  have start : Converging localLen (.fresh capacity maxLag) :=
    ⟨covers, fun entry member => absurd member List.not_mem_nil, fun query _ => rfl⟩
  obtain ⟨state, reached, converging⟩ := start.run starts
  obtain ⟨flushed, taken, _, same, empty, agree⟩ := converging.flush
  exact ⟨state, reached, converging.replays, flushed, taken, same, empty, same ▸ agree⟩

/-- Two overlapping writes, one past the end of a local store of four bytes. -/
theorem backup_converges_past_the_end :
    let ops : List ReplicationOp := [.writeWithReplication 2 [1, 2, 3], .flushReplication,
      .writeWithReplication 1 [4, 5], .writeWithReplication 4 [6]]
    ∃ state, Runs.run (ReplicatedStore.step 4) (.fresh 8 1) ops = some state ∧
      state.manager.backup.pending = [(1, [4, 5]), (4, [6])] ∧
      AgreeBelow 4 (replay state.manager.backup.objects state.manager.backup.pending) state.localStore := by
  intro ops
  have starts : ∀ op ∈ ops, op.Starts 4 := by decide
  obtain ⟨state, reached, agree, _⟩ := backup_converges_to_primary (show 4 ≤ 8 by decide) 1 ops starts
  refine ⟨state, reached, ?_, agree⟩
  have queue : (Runs.run (ReplicatedStore.step 4) (.fresh 8 1) ops).map
      (fun state => state.manager.backup.pending) = some [(1, [4, 5]), (4, [6])] := by decide +kernel
  rw [reached] at queue
  exact Option.some.inj queue

section Flushing

/-- The part of a write that falls inside a store of the given length. -/
def clippedWrite (length : ℕ) (store : Memory) (offset : ℕ) (data : Bytes) : Memory :=
  fun query => if query < length then write store offset data query else store query

/-- The inside parts of the pending writes, applied in order. -/
def clippedReplay (length : ℕ) (objects : Memory) (pending : List (BitVec 64 × Bytes)) : Memory :=
  pending.foldl (fun objects entry => clippedWrite length objects entry.1.toNat entry.2) objects

variable {length offset : ℕ} {store : Memory} {data : Bytes}

private theorem write_take_eq_clippedWrite (starts : offset ≤ length) :
    write store offset (data.take (min (offset + data.length) length - offset)) =
      clippedWrite length store offset data := by
  obtain ⟨copied, copies, agrees⟩ := @copyClipped_eq length length offset store store data starts le_rfl
    fun _ _ => rfl
  rw [copyClipped, if_neg (by omega)] at copies
  cases copies
  funext query
  rw [clippedWrite]
  by_cases below : query < length
  · rw [if_pos below]
    exact agrees query below
  · rw [if_neg below, write_outside (by rw [List.length_take]; omega)]

/-- A copy goes through exactly if it starts inside the store or at its end and reaches no further than a
word does. -/
theorem checkedCopyClipped_eq :
    checkedCopyClipped store length offset data =
      if offset ≤ length ∧ offset + data.length < 2 ^ 64 then some (clippedWrite length store offset data)
      else none := by
  rw [checkedCopyClipped]
  by_cases fits : offset + data.length < 2 ^ 64
  · by_cases starts : offset ≤ length
    · rw [CheckedMemory.sum_of_lt fits, if_pos ⟨starts, fits⟩, ← write_take_eq_clippedWrite starts]
      exact if_neg (by omega)
    · rw [CheckedMemory.sum_of_lt fits, if_neg fun both => starts both.1]
      exact if_pos (by omega)
  · rw [CheckedMemory.sum_eq_none (Nat.not_lt.mp fits), if_neg fun both => fits both.2]
    rfl

private theorem checkedDrain_eq (pending : List (BitVec 64 × Bytes)) :
    BackupStore.checkedDrain length store pending =
      if ∀ entry ∈ pending, entry.1.toNat ≤ length ∧ entry.1.toNat + entry.2.length < 2 ^ 64 then
        some (clippedReplay length store pending)
      else none := by
  induction pending generalizing store with
  | nil => exact (if_pos fun entry member => absurd member List.not_mem_nil).symm
  | cons entry pending ih =>
    rw [BackupStore.checkedDrain, checkedCopyClipped_eq]
    by_cases first : entry.1.toNat ≤ length ∧ entry.1.toNat + entry.2.length < 2 ^ 64
    · rw [if_pos first, Option.bind_eq_bind, Option.bind_some, ih]
      simp only [List.forall_mem_cons, first, true_and]
      rfl
    · rw [if_neg first, if_neg fun all => first (all entry List.mem_cons_self)]
      rfl

end Flushing

/-- A flush applies the inside part of every queued write in order, touches no other byte, empties the
queue and tells how many entries it held, exactly if no entry starts beyond the end of the backup (nor ends
beyond the last address, which no slice in memory does from there). -/
theorem flush_applies_whole_queue_iff (store : BackupStore) :
    store.checkedFlush = some ({ store with
        objects := clippedReplay store.capacity store.objects store.pending, pending := [] },
      store.pending.length) ↔
      ∀ entry ∈ store.pending,
        entry.1.toNat ≤ store.capacity ∧ entry.1.toNat + entry.2.length < 2 ^ 64 := by
  rw [BackupStore.checkedFlush, checkedDrain_eq]
  split
  next inside => exact iff_of_true rfl inside
  next beyond => exact iff_of_false (by simp) beyond

/-- A local store of eight bytes with a backup of four: a write at the sixth byte is queued, and stops the
flush before the entry behind it. -/
theorem flush_stops_beyond_the_end :
    ∃ manager localStore, ((ReplicationManager.new 4 2).writeWithReplication 6 [1] (fun _ => 0) 8).bind
        (fun written => written.1.writeWithReplication 0 [2] written.2 8) = some (manager, localStore) ∧
      manager.backup.pending = [(6, [1]), (0, [2])] ∧ manager.backup.checkedFlush = none :=
  ⟨_, _, rfl, rfl, rfl⟩

end Rdmas.Soundness
