import Mathlib.Data.List.Induction
import Rdmas.Soundness.Replication

/-! # What a reader of the backup sees

The backup changes at a flush only, and then it becomes the local store of that moment. So whoever reads
from it, at any time, reads the local store of an earlier time: the one before the writes that are still in
the queue, and no other.
-/

namespace Rdmas.Soundness

open Rdmas.Model LittleEndian ByteMemory Runs

variable {localLen : ℕ} {state next : ReplicatedStore} {op : ReplicationOp}

theorem ReplicatedStore.step_write {offset : BitVec 64} {data : Bytes}
    (taken : state.step localLen (.writeWithReplication offset data) = some next) :
    offset.toNat ≤ localLen ∧
      next.manager.backup = state.manager.backup.enqueueWrite offset data := by
  simp only [step, ReplicationManager.writeWithReplication, Option.map_map, Option.map_eq_some_iff] at taken
  obtain ⟨copied, copies, rfl⟩ := taken
  refine ⟨?_, rfl⟩
  by_contra beyond
  simp only [copyClipped] at copies
  rw [if_pos (by omega)] at copies
  cases copies

/-- A step that returns keeps the queue on the way to the local store. -/
theorem Converging.step (converging : Converging localLen state)
    (taken : state.step localLen op = some next) : Converging localLen next := by
  cases op with
  | writeWithReplication offset data =>
    obtain ⟨other, same, onward⟩ := converging.write data (ReplicatedStore.step_write taken).1
    exact Option.some.inj (same.symm.trans taken) ▸ onward
  | flushReplication =>
    obtain ⟨other, same, onward, _⟩ := converging.flush
    exact Option.some.inj (same.symm.trans taken) ▸ onward

/-- The backup is the local store before the last calls, which are the writes in the queue. -/
def LagsBehind (localLen : ℕ) (start : ReplicatedStore) (ops : List ReplicationOp)
    (state : ReplicatedStore) : Prop :=
  ∃ front back past, ops = front ++ back ∧ back.length = state.manager.backup.pendingCount ∧
    (∀ op ∈ back, op ≠ .flushReplication) ∧
    run (ReplicatedStore.step localLen) start front = some past ∧
    AgreeBelow localLen state.manager.backup.objects past.localStore

theorem LagsBehind.step {start : ReplicatedStore} {ops : List ReplicationOp}
    (lags : LagsBehind localLen start ops state) (converging : Converging localLen state)
    (reached : run (ReplicatedStore.step localLen) start ops = some state)
    (taken : state.step localLen op = some next) : LagsBehind localLen start (ops ++ [op]) next := by
  cases op with
  | writeWithReplication offset data =>
    obtain ⟨front, back, past, rfl, count, writes, began, agree⟩ := lags
    obtain ⟨_, queued⟩ := ReplicatedStore.step_write taken
    refine ⟨front, back ++ [.writeWithReplication offset data], past, List.append_assoc .., ?_, ?_, began, ?_⟩
    · rw [queued, BackupStore.pendingCount, BackupStore.enqueueWrite, List.length_append, List.length_append,
        count]
      rfl
    · intro op member
      rcases List.mem_append.mp member with earlier | last
      · exact writes op earlier
      · rw [List.mem_singleton.mp last]
        exact fun is => by cases is
    · rw [queued]
      exact agree
  | flushReplication =>
    obtain ⟨other, same, _, kept, empty, agree⟩ := converging.flush
    obtain rfl := Option.some.inj (same.symm.trans taken)
    refine ⟨ops ++ [.flushReplication], [], other, (List.append_nil _).symm, ?_, by simp, ?_, kept ▸ agree⟩
    · simp [BackupStore.pendingCount, empty]
    · exact run_append_eq_some.mpr ⟨state, reached, run_cons_eq_some.mpr ⟨other, taken, rfl⟩⟩

/-- Over a whole run, by adding calls at its end. -/
theorem lagsBehind_run {start final : ReplicatedStore} {ops : List ReplicationOp}
    (converging : Converging localLen start) (empty : start.manager.backup.pending = [])
    (reached : run (ReplicatedStore.step localLen) start ops = some final) :
    LagsBehind localLen start ops final := by
  induction ops using List.reverseRecOn generalizing final with
  | nil =>
    cases reached
    refine ⟨[], [], start, rfl, ?_, by simp, rfl, ?_⟩
    · simp [BackupStore.pendingCount, empty]
    · have replays := converging.replays
      rwa [empty] at replays
  | append_singleton ops op ih =>
    obtain ⟨state, before, last⟩ := run_append_eq_some.mp reached
    obtain ⟨next, taken, stopped⟩ := run_cons_eq_some.mp last
    cases stopped
    exact (ih before).step (run_invariant (fun kept taken => kept.step taken) converging before) before taken

private theorem read_of_agreeBelow {backup : BackupStore} {memory : Memory} {offset : BitVec 64} {length : ℕ}
    (agree : AgreeBelow localLen backup.objects memory) (covers : localLen ≤ backup.capacity)
    (fits : localLen < 2 ^ 64) (starts : offset.toNat < localLen) (ends : offset.toNat + length ≤ localLen) :
    backup.read offset length = some (some (ByteMemory.read memory offset.toNat length)) := by
  have sums : CheckedMemory.sum 64 offset.toNat length = some (offset.toNat + length) :=
    if_pos (by omega)
  have whole : min (offset.toNat + length) backup.capacity - offset.toNat = length := by omega
  have same : ByteMemory.read backup.objects offset.toNat length =
      ByteMemory.read memory offset.toNat length := by
    refine List.map_congr_left fun index member => agree _ ?_
    have below := List.mem_range.mp member
    omega
  simp only [BackupStore.read, sums, Option.bind_eq_bind, Option.bind_some, whole, same]
  rw [if_neg (by omega)]
  rfl

/-- At every moment of every run from a zeroed local store, a read inside it, asked of the backup, returns what the
local store held before the last `pending_count` calls, which were all writes: a failover loses exactly those. -/
theorem backup_reads_lag_by_queue {capacity : ℕ} (covers : localLen ≤ capacity) (fits : localLen < 2 ^ 64)
    (maxLag : ℕ) {ops : List ReplicationOp} {final : ReplicatedStore}
    (reached : run (ReplicatedStore.step localLen) (.fresh capacity maxLag) ops = some final) :
    ∃ front back past, ops = front ++ back ∧ back.length = final.manager.backup.pendingCount ∧
      (∀ op ∈ back, op ≠ .flushReplication) ∧
      run (ReplicatedStore.step localLen) (.fresh capacity maxLag) front = some past ∧
      ∀ (offset : BitVec 64) (length : ℕ), offset.toNat < localLen → offset.toNat + length ≤ localLen →
        final.manager.readFromBackup offset length =
          some (some (ByteMemory.read past.localStore offset.toNat length)) := by
  have start : Converging localLen (.fresh capacity maxLag) :=
    ⟨covers, fun entry member => absurd member List.not_mem_nil, fun query _ => rfl⟩
  have converging : Converging localLen final :=
    run_invariant (fun kept taken => kept.step taken) start reached
  obtain ⟨front, back, past, split, count, writes, began, agree⟩ := lagsBehind_run start rfl reached
  exact ⟨front, back, past, split, count, writes, began, fun offset length starts ends =>
    read_of_agreeBelow agree converging.covers fits starts ends⟩

/-- Two writes with a flush between them: the backup reads as after the first. -/
theorem backup_reads_first_write :
    let ops : List ReplicationOp := [.writeWithReplication 0 [1, 2], .flushReplication,
      .writeWithReplication 1 [7]]
    ∃ final, run (ReplicatedStore.step 4) (.fresh 8 1) ops = some final ∧
      ∃ front back past, ops = front ++ back ∧ back.length = final.manager.backup.pendingCount ∧
        (∀ op ∈ back, op ≠ .flushReplication) ∧
        run (ReplicatedStore.step 4) (.fresh 8 1) front = some past ∧
        ∀ (offset : BitVec 64) (length : ℕ), offset.toNat < 4 → offset.toNat + length ≤ 4 →
          final.manager.readFromBackup offset length =
            some (some (ByteMemory.read past.localStore offset.toNat length)) := by
  intro ops
  obtain ⟨final, reached⟩ : ∃ final, run (ReplicatedStore.step 4) (.fresh 8 1) ops = some final :=
    Option.isSome_iff_exists.mp (by decide +kernel)
  exact ⟨final, reached, backup_reads_lag_by_queue (by decide) (by decide) 1 reached⟩

end Rdmas.Soundness
