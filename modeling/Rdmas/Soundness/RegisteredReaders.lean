import Rdmas.Model.ClientTable
import Rdmas.Soundness.EpochGc

/-! # Registered clients hold back the collector

The collector is told the oldest activity the registry of the control server knows of. Which extents it may
reclaim is decided by what clients have told last; a client that has told when it started to read, and has
neither moved on nor left, keeps everything that was not deleted before.
-/

namespace Rdmas.Soundness

open Rdmas.Model Runs Tiling LittleEndian ExtentRecord

namespace GcState

variable {leaked : List Range} {ledger : Ledger} {state next : GcState} {offset : ℕ}

/-- An allocated extent reads as the payload of its record. -/
theorem read_of_accounted {region : LargeObjectRegion}
    (accounted : RegionState.AccountedBut leaked ⟨region, ledger⟩) (member : offset ∈ region.allocated) :
    region.read offset = (ledger offset).map payload := by
  obtain ⟨record, found, live⟩ := (accounted.allocated offset).mp member
  have reads : region.read offset = if record.live then some record.payload else none :=
    RegionState.Accounted.read_eq accounted found
  rw [reads, if_pos live, show ledger offset = some record from found, Option.map_some]

private theorem payload_markLedger (ledger : Ledger) (pending : List (BitVec 64 × BitVec 64)) (offset : ℕ) :
    (markLedger ledger pending offset).map payload =
      (ledger offset).map payload := by
  induction pending generalizing ledger with
  | nil => rfl
  | cons entry rest ih =>
    refine (ih _).trans ?_
    rw [markEntry, Function.update_apply]
    split
    · next same => rw [same, Option.map_map]; rfl
    · rfl

theorem payload_sweptLedger (ledger : Ledger) (minActiveEpoch : BitVec 64) (order : List ℕ) (offset : ℕ) :
    (RegionState.sweptLedger ledger minActiveEpoch order offset).map payload =
      (ledger offset).map payload := by
  rw [RegionState.sweptLedger]
  split
  · rw [Option.map_map]
    congr 1
    funext record
    simp only [Function.comp_apply, swept]
    split <;> rfl
  · rfl

/-- A sweep changes no read of an extent it spares. -/
theorem Tracked.read_sweep (tracked : Tracked leaked ledger state) (order : Enumeration)
    (minActiveTs : BitVec 32) (before : offset ∈ state.region.allocated)
    (after : offset ∈ (state.gc.sweep state.region order minActiveTs).2.1.allocated) :
    (state.gc.sweep state.region order minActiveTs).2.1.read offset = state.region.read offset := by
  obtain ⟨marked, _⟩ := accountedBut_markPending tracked.accounted tracked.modern tracked.live
  have swept := marked.sweep (minActiveTs.setWidth 64) (order.nodup _) fun _ => order.mem_list.mp
  rw [read_of_accounted tracked.accounted before]
  refine (read_of_accounted swept after).trans ?_
  rw [payload_sweptLedger, payload_markLedger]

theorem Tracked.read_allocate (tracked : Tracked leaked ledger state) {data : Bytes}
    {region : LargeObjectRegion} {returned : Option ℕ}
    (allocated : state.region.allocate data = (region, returned)) (before : offset ∈ state.region.allocated) :
    offset ∈ region.allocated ∧ region.read offset = state.region.read offset := by
  cases returned with
  | none =>
    obtain rfl := allocate_eq_none allocated
    exact ⟨before, rfl⟩
  | some taken =>
    have differs : offset ≠ taken := fun same => tracked.vacant allocated (same ▸ before)
    obtain ⟨_, grown, _⟩ := allocate_eq_some allocated
    have after : offset ∈ region.allocated := grown ▸ Finset.mem_insert_of_mem before
    obtain ⟨leaked', accounted⟩ := tracked.accounted.allocate data
    rw [allocated] at accounted
    refine ⟨after, ?_⟩
    rw [read_of_accounted accounted after, read_of_accounted tracked.accounted before]
    simp [RegionState.enter, differs]

/-- No call changes what an extent reads as while it stays allocated. -/
theorem Tracked.read_step (tracked : Tracked leaked ledger state) {op : GcOp}
    (taken : state.step op = some next) (before : offset ∈ state.region.allocated)
    (after : offset ∈ next.region.allocated) : next.region.read offset = state.region.read offset := by
  cases op with
  | allocate data =>
    cases taken
    exact (tracked.read_allocate rfl before).2
  | scheduleDeletion scheduled now =>
    simp only [GcState.step, Option.ite_none_right_eq_some, Option.some.injEq] at taken
    exact taken.2 ▸ rfl
  | sweep order minActiveTs =>
    cases taken
    exact tracked.read_sweep order minActiveTs before after
  | runGcCycle order clientActiveTimestamps =>
    simp only [GcState.step, Option.some.injEq] at taken
    subst taken
    by_cases nobody : clientActiveTimestamps.isEmpty = true
    · simp only [runGcCycle, if_pos nobody]
    · simp only [runGcCycle, if_neg nobody] at after ⊢
      exact tracked.read_sweep order _ before after

end GcState

/-- What clients tell the control server, and calls on the region and its collector. Both entry points of a
sweep take the timestamps the registry holds. -/
inductive RegistryEvent where
  | heartbeat (clientId : BitVec 64) (activeTs : BitVec 32) (now : ℕ)
  | deregister (clientId : BitVec 64)
  | allocate (data : Bytes)
  | scheduleDeletion (offset : BitVec 64) (now : BitVec 32)
  | sweep (order : Enumeration)
  | runGcCycle (order : Enumeration)

structure CollectedServer where
  clients : ClientTable
  collector : GcState

namespace CollectedServer

variable {state next final : CollectedServer} {event : RegistryEvent}

/-- Nobody is registered and nothing is allocated. -/
def fresh (size : ℕ) (gc : EpochGc) : CollectedServer := ⟨∅, .fresh size gc⟩

def call (state : CollectedServer) (op : GcOp) : Option CollectedServer :=
  (state.collector.step op).map fun collector => { state with collector }

def step (state : CollectedServer) : RegistryEvent → Option CollectedServer
  | .heartbeat clientId activeTs now =>
      some { state with clients := state.clients.heartbeat clientId activeTs now }
  | .deregister clientId => some { state with clients := state.clients.deregister clientId }
  | .allocate data => state.call (.allocate data)
  | .scheduleDeletion offset now => state.call (.scheduleDeletion offset now)
  | .sweep order => state.call (.sweep order state.clients.minActiveTs)
  | .runGcCycle order => state.call (.runGcCycle order state.clients.timestamps)

theorem call_eq_some {op : GcOp} (taken : state.call op = some next) :
    state.collector.step op = some next.collector ∧ next.clients = state.clients := by
  obtain ⟨collector, stepped, rfl⟩ := Option.map_eq_some_iff.mp taken
  exact ⟨stepped, rfl⟩

/-- Every registered client was active after the given epoch, and there is one. -/
def Outlived (clients : ClientTable) (epoch : BitVec 32) : Prop :=
  (∃ id, (clients.registry id).isSome) ∧
    ∀ id ts heard, clients.registry id = some (ts, heard) → epoch < ts

/-- A sweep reclaims an allocated extent if it was scheduled before the activity of every registered client
and somebody is registered, and keeps it otherwise; nothing else reclaims anything. -/
def ReclaimsOutlived (state : CollectedServer) (event : RegistryEvent) : Prop :=
  ∀ next, state.step event = some next → ∀ offset ∈ state.collector.region.allocated,
    GcState.Settled next.collector.region offset
      (((∃ order, event = .sweep order) ∨ ∃ order, event = .runGcCycle order) ∧
        ∃ epoch, state.collector.latest offset = some epoch ∧ Outlived state.clients epoch)

theorem outlived_iff {clients : ClientTable} {epoch : BitVec 32} :
    Outlived clients epoch ↔ clients.timestamps ≠ [] ∧ ∀ ts ∈ clients.timestamps, epoch < ts := by
  refine and_congr ?_ ?_
  · simp only [Option.isSome_iff_exists]
    constructor
    · rintro ⟨id, ⟨ts, heard⟩, found⟩
      exact List.ne_nil_of_mem (ClientTable.mem_timestamps.mpr ⟨id, heard, found⟩)
    · intro some_
      obtain ⟨ts, listed⟩ := List.exists_mem_of_ne_nil _ some_
      obtain ⟨id, heard, found⟩ := ClientTable.mem_timestamps.mp listed
      exact ⟨id, _, found⟩
  · constructor
    · intro all ts listed
      obtain ⟨id, heard, found⟩ := ClientTable.mem_timestamps.mp listed
      exact all id ts heard found
    · exact fun all id ts heard found => all ts (ClientTable.mem_timestamps.mpr ⟨id, heard, found⟩)

/-- An empty registry makes the oldest activity 0, which is after no epoch. -/
theorem lt_minActiveTs {clients : ClientTable} {epoch : BitVec 32} :
    epoch < clients.minActiveTs ↔ Outlived clients epoch := by
  rw [outlived_iff]
  by_cases nobody : clients.timestamps = []
  · simp [ClientTable.minActiveTs, nobody, minTimestamp]
  · rw [ClientTable.minActiveTs, GcState.lt_minTimestamp nobody]
    exact (and_iff_right nobody).symm

/-- The collector keeps track of the region, whatever the registry holds. -/
def Kept (state : CollectedServer) : Prop :=
  ∃ leaked ledger, GcState.Tracked leaked ledger state.collector

theorem Kept.call (kept : state.Kept) {op : GcOp} (taken : state.call op = some next) : next.Kept := by
  obtain ⟨leaked, ledger, tracked⟩ := kept
  exact (tracked.step op).2 next.collector (call_eq_some taken).1

theorem Kept.step (kept : state.Kept) (taken : state.step event = some next) : next.Kept := by
  cases event with
  | heartbeat | deregister => exact Option.some.inj taken ▸ kept
  | allocate | scheduleDeletion | sweep | runGcCycle => exact kept.call taken

theorem kept_fresh (size : ℕ) {gc : EpochGc} (idle : gc.pending = []) : (fresh size gc).Kept :=
  ⟨[], _, GcState.tracked_fresh size idle⟩

/-- A call settles every allocated extent by what it outlives. -/
theorem Kept.settled (kept : state.Kept) {op : GcOp} (taken : state.call op = some next) {offset : ℕ}
    (member : offset ∈ state.collector.region.allocated) :
    GcState.Settled next.collector.region offset
      (∃ epoch, state.collector.latest offset = some epoch ∧ op.Outlives epoch) := by
  obtain ⟨leaked, ledger, tracked⟩ := kept
  exact (tracked.step op).1 next.collector (call_eq_some taken).1 offset member

theorem Kept.reclaimsOutlived (kept : state.Kept) (event : RegistryEvent) :
    state.ReclaimsOutlived event := by
  intro next taken offset member
  have spared : ∀ {due : Prop}, ¬ due → offset ∈ next.collector.region.allocated →
      GcState.Settled next.collector.region offset due :=
    fun never still => ⟨fun due => absurd due never, fun _ => still⟩
  cases event with
  | heartbeat | deregister =>
    refine spared ?_ (Option.some.inj taken ▸ member)
    rintro ⟨⟨_, is⟩ | ⟨_, is⟩, _⟩ <;> cases is
  | allocate | scheduleDeletion =>
    refine spared ?_ ((kept.settled taken member).2 fun ⟨_, _, outlives⟩ => outlives)
    rintro ⟨⟨_, is⟩ | ⟨_, is⟩, _⟩ <;> cases is
  | sweep order =>
    have settled := kept.settled taken member
    simp only [GcOp.Outlives, lt_minActiveTs] at settled
    rwa [and_iff_right (.inl ⟨order, rfl⟩)]
  | runGcCycle order =>
    have settled := kept.settled taken member
    simp only [GcOp.Outlives, ← outlived_iff] at settled
    rwa [and_iff_right (.inr ⟨order, rfl⟩)]

end CollectedServer

/-- In every run of heartbeats, departures, allocations, deletions and sweeps: a sweep, by either entry
point, reclaims exactly the extents scheduled before the last told activity of every registered client,
and without a registered client none. -/
theorem sweeps_reclaim_what_clients_outlived (size : ℕ) (gc : EpochGc) (idle : gc.pending = [])
    (events : List RegistryEvent) :
    Throughout CollectedServer.step CollectedServer.ReclaimsOutlived (.fresh size gc) events :=
  throughout_of_invariant
    (fun kept => ⟨kept.reclaimsOutlived _, fun _ taken => kept.step taken⟩)
    (CollectedServer.kept_fresh size idle)

/-- A sweep without a client keeps what a client has deleted; one after the client has told of a later
activity reclaims it. -/
theorem sweep_waits_for_heartbeat :
    let start := CollectedServer.fresh 64 (.new 1000 0)
    let events : List RegistryEvent := [.allocate [1], .scheduleDeletion 0 5, .sweep increasing,
      .heartbeat 1 5 0, .sweep increasing, .heartbeat 1 9 1, .runGcCycle increasing]
    (run CollectedServer.step start (events.take 6)).map (fun state =>
        state.collector.region.allocated) = some {0} ∧
      (run CollectedServer.step start events).map (fun state =>
        state.collector.region.allocated) = some ∅ ∧
      Throughout CollectedServer.step CollectedServer.ReclaimsOutlived start events := by
  intro start events
  refine ⟨by decide +kernel, by decide +kernel, ?_⟩
  exact sweeps_reclaim_what_clients_outlived 64 (.new 1000 0) rfl _

namespace CollectedServer

variable {state next final : CollectedServer} {event : RegistryEvent}
variable {id : BitVec 64} {ts : BitVec 32} {offset : ℕ} {content : Option Bytes}

/-- What may happen while a client reads: it tells nothing new and does not leave, and nothing is deleted
at a time before the one it has told. -/
def WhileReading (id : BitVec 64) (ts : BitVec 32) : RegistryEvent → Prop
  | .heartbeat clientId _ _ | .deregister clientId => clientId ≠ id
  | .scheduleDeletion _ now => ts ≤ now
  | .allocate _ | .sweep _ | .runGcCycle _ => True

/-- An extent that was not deleted before the time a registered client has told. -/
structure HeldBack (id : BitVec 64) (ts : BitVec 32) (offset : ℕ) (content : Option Bytes)
    (state : CollectedServer) : Prop where
  kept : state.Kept
  told : ∃ heard, state.clients.registry id = some (ts, heard)
  allocated : offset ∈ state.collector.region.allocated
  late : ∀ epoch, state.collector.latest offset = some epoch → ts ≤ epoch
  reads : state.collector.region.read offset = content

/-- No sweep is told an activity after the one of the reader. -/
theorem HeldBack.not_outlived (held : HeldBack id ts offset content state) {epoch : BitVec 32}
    (latest : state.collector.latest offset = some epoch) : ¬ Outlived state.clients epoch := by
  rintro ⟨_, all⟩
  obtain ⟨heard, told⟩ := held.told
  exact absurd (all id ts heard told) (BitVec.not_lt.mpr (held.late epoch latest))

theorem HeldBack.call (held : HeldBack id ts offset content state) {op : GcOp}
    (taken : state.call op = some next) (still : offset ∈ next.collector.region.allocated)
    (late : ∀ epoch, next.collector.latest offset = some epoch → ts ≤ epoch) :
    HeldBack id ts offset content next := by
  obtain ⟨stepped, same⟩ := call_eq_some taken
  obtain ⟨leaked, ledger, tracked⟩ := held.kept
  exact ⟨held.kept.call taken, same ▸ held.told, still, late,
    (tracked.read_step stepped held.allocated still).trans held.reads⟩

theorem HeldBack.step (held : HeldBack id ts offset content state) (allowed : WhileReading id ts event)
    (taken : state.step event = some next) : HeldBack id ts offset content next := by
  have still : offset ∈ next.collector.region.allocated :=
    (held.kept.reclaimsOutlived event next taken offset held.allocated).2
      fun ⟨_, _, latest, outlived⟩ => held.not_outlived latest outlived
  cases event with
  | heartbeat clientId activeTs now =>
    cases taken
    refine ⟨held.kept, ?_, held.allocated, held.late, held.reads⟩
    simpa only [ClientTable.heartbeat_registry, if_neg (Ne.symm allowed)] using held.told
  | deregister clientId =>
    cases taken
    refine ⟨held.kept, ?_, held.allocated, held.late, held.reads⟩
    simpa only [ClientTable.deregister_registry, if_neg (Ne.symm allowed)] using held.told
  | allocate data =>
    refine held.call taken still fun epoch latest => ?_
    have stepped := (call_eq_some taken).1
    rcases allocated : state.collector.region.allocate data with ⟨region, _ | returned⟩
    · simp only [GcState.step, allocated, Option.some.injEq] at stepped
      rw [← stepped] at latest
      exact held.late epoch latest
    · simp only [GcState.step, allocated, Option.some.injEq] at stepped
      rw [← stepped] at latest
      dsimp only at latest
      rw [Function.update_apply] at latest
      split at latest
      · cases latest
      · exact held.late epoch latest
  | scheduleDeletion scheduled now =>
    refine held.call taken still fun epoch latest => ?_
    have stepped := (call_eq_some taken).1
    simp only [GcState.step, Option.ite_none_right_eq_some, Option.some.injEq] at stepped
    rw [← stepped.2] at latest
    dsimp only at latest
    rw [Function.update_apply] at latest
    split at latest
    · exact Option.some.inj latest ▸ allowed
    · exact held.late epoch latest
  | sweep | runGcCycle =>
    refine held.call taken still fun epoch latest => held.late epoch ?_
    rwa [← Option.some.inj (call_eq_some taken).1] at latest

end CollectedServer

/-- From any reachable state: while a client stands in the registry with a time `ts`, every extent that was
not deleted before `ts` stays allocated and reads the same, whatever else is told, allocated, deleted and
swept. -/
theorem registered_reader_keeps_extents {size : ℕ} {gc : EpochGc} (idle : gc.pending = [])
    {before after : List RegistryEvent} {state final : CollectedServer}
    (reached : run CollectedServer.step (.fresh size gc) before = some state)
    {id : BitVec 64} {ts : BitVec 32} {heard : ℕ} (told : state.clients.registry id = some (ts, heard))
    {offset : ℕ} (allocated : offset ∈ state.collector.region.allocated)
    (late : ∀ epoch, state.collector.latest offset = some epoch → ts ≤ epoch)
    (reading : ∀ event ∈ after, CollectedServer.WhileReading id ts event)
    (onward : run CollectedServer.step state after = some final) :
    offset ∈ final.collector.region.allocated ∧
      final.collector.region.read offset = state.collector.region.read offset := by
  have kept : state.Kept :=
    run_invariant (fun kept taken => kept.step taken) (CollectedServer.kept_fresh size idle) reached
  have held : CollectedServer.HeldBack id ts offset (state.collector.region.read offset) final :=
    Throughout.invariant (fun held allowed taken => held.step allowed taken)
      ⟨kept, ⟨heard, told⟩, allocated, late, rfl⟩ (throughout_of_forall reading state) onward
  exact ⟨held.allocated, held.reads⟩

/-- A client reads since time 5. -/
def readerStarts : List RegistryEvent := [.allocate [1], .heartbeat 1 5 0]

/-- Another client has moved on to time 9, and the extent is deleted at time 6. -/
def othersMoveOn : List RegistryEvent := [.heartbeat 2 9 1, .scheduleDeletion 0 6, .sweep increasing]

theorem slow_reader_keeps_deleted_extent : ∃ state final,
    run CollectedServer.step (.fresh 64 (.new 1000 0)) readerStarts = some state ∧
      run CollectedServer.step state othersMoveOn = some final ∧
      0 ∈ final.collector.region.allocated ∧
      final.collector.region.read 0 = state.collector.region.read 0 := by
  have starts : (run CollectedServer.step (.fresh 64 (.new 1000 0)) readerStarts).map (fun state =>
      (state.clients.registry 1, decide (0 ∈ state.collector.region.allocated),
        state.collector.latest 0)) = some (some (5, 0), true, none) := by decide +kernel
  have goesOn : (run CollectedServer.step (.fresh 64 (.new 1000 0))
      (readerStarts ++ othersMoveOn)).isSome := by decide +kernel
  obtain ⟨final, whole⟩ := Option.isSome_iff_exists.mp goesOn
  obtain ⟨state, reached, onward⟩ := run_append_eq_some.mp whole
  rw [reached, Option.map_some, Option.some.injEq] at starts
  simp only [Prod.mk.injEq, decide_eq_true_eq] at starts
  obtain ⟨told, allocated, latest⟩ := starts
  exact ⟨state, final, reached, onward, registered_reader_keeps_extents rfl reached told allocated
    (by simp [latest]) (by simp [othersMoveOn, CollectedServer.WhileReading]) onward⟩

end Rdmas.Soundness
