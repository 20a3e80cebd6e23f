import Rdmas.Model.ControlServer
import Rdmas.Model.RemoteClients
import Rdmas.Soundness.RemoteAlloc

/-! # Remote allocations and the size of the region

No client knows how large the free-list region is: `discover` advertises a size, but neither copy of the
allocation protocol compares the bump offset with it. A reservation that does not fit is granted like any
other, and its writes go to whatever memory follows the region. The region is safe exactly in those runs
in which every swap that succeeds happens to fit.
-/

namespace Rdmas.Soundness

open Rdmas.Model LittleEndian ByteMemory Tiling Runs Function

/-- The bytes the next operation of an allocation writes, and where: the bump word if its swap succeeds,
later the header, the payload and the checksum. -/
def written (xxh64 : Xxh64) (data : Bytes) (region : Memory) : AllocPc → Option (ℕ × Bytes)
  | .haveOld oldOffset =>
      if bumpOffset region = oldOffset then
        some (0, encode 8 (oldOffset + extentTotal data.length))
      else none
  | pc => (pc.pendingWrite xxh64 data).map fun (address, bytes, _) => (address, bytes)

section Written

variable {xxh64 : Xxh64} {data : Bytes} {region region' : Memory}
variable {pc pc' : AllocPc}

/-- The region changes by what is written and not otherwise. -/
theorem region_of_written (moved : pc.step xxh64 data region = some (region', pc')) :
    region' = (written xxh64 data region pc).elim region fun block =>
      write region block.1 block.2 := by
  cases pc with
  | start =>
    cases moved
    rfl
  | haveOld oldOffset =>
    simp only [AllocPc.step] at moved
    simp only [written]
    split at moved
    · next current =>
        cases moved
        rw [if_pos current]
        rfl
    · next stale =>
        cases moved
        rw [if_neg stale]
        rfl
  | reserved | headerWritten | payloadWritten | finished | casFailed =>
    simp only [AllocPc.step] at moved
    obtain ⟨⟨address, bytes, _⟩, pending, stored⟩ := Option.map_eq_some_iff.mp moved
    cases stored
    simp only [written, pending, Option.map_some, Option.elim_some]

/-- A write hits the bump word, when the swap of the call succeeds, or the range of the call. -/
theorem written_cases {address : ℕ} {bytes : Bytes}
    (writes : written xxh64 data region pc = some (address, bytes)) :
    (pc = .haveOld (bumpOffset region) ∧ address + bytes.length = 8) ∨
      ∃ offset, pc.granted = some offset ∧
        address + bytes.length ≤ offset + extentTotal data.length := by
  cases pc with
  | start => cases writes
  | haveOld oldOffset =>
    simp only [written] at writes
    split at writes
    · next current =>
        cases writes
        exact .inl ⟨congrArg _ current.symm, by rw [encode_length]⟩
    · cases writes
  | reserved | headerWritten | payloadWritten | finished | casFailed =>
    simp only [written] at writes
    obtain ⟨⟨_, _, after⟩, pending, same⟩ := Option.map_eq_some_iff.mp writes
    cases same
    obtain ⟨offset, granted, _, _, upper⟩ := pendingWrite_inside pending
    exact .inr ⟨offset, granted, upper⟩

/-- An operation of an insertion outside its allocation leaves the region alone, and at most begins to
allocate. -/
theorem region_of_outside {call : InsertCall} {table table' : CuckooTable} {pc pc' : InsertPc}
    (outside : ∀ home oldLv allocation, pc ≠ .allocating home oldLv allocation)
    (moved : pc.step xxh64 call table region = some (table', region', pc')) :
    region' = region ∧ ∀ home oldLv allocation, pc' = .allocating home oldLv allocation →
      allocation = .start := by
  have declines : ∀ home home' oldLv allocation,
      InsertPc.declined home ≠ .allocating home' oldLv allocation := by
    intro home home' oldLv allocation same
    cases home <;> cases same
  cases pc with
  | reading home =>
    simp only [InsertPc.step] at moved
    split_ifs at moved
    · cases moved
      exact ⟨rfl, fun _ _ _ same => absurd same (declines _ _ _ _)⟩
    · split at moved
      · cases moved
        exact ⟨rfl, fun _ _ _ same => by cases same⟩
      · cases moved
        exact ⟨rfl, fun _ _ _ same => by cases same; rfl⟩
    · cases moved
      exact ⟨rfl, fun _ _ _ same => absurd same (declines _ _ _ _)⟩
  | allocating home oldLv allocation => exact absurd rfl (outside home oldLv allocation)
  | claiming home oldLv oldOffset =>
    simp only [InsertPc.step] at moved
    split at moved
    · cases moved
      exact ⟨rfl, fun _ _ _ same => by cases same⟩
    · cases moved
      exact ⟨rfl, fun _ _ _ same => absurd same (declines _ _ _ _)⟩
  | writing home oldOffset =>
    cases moved
    exact ⟨rfl, fun _ _ _ same => by cases same⟩
  | returned result => cases moved

end Written

variable {ι κ : Type} {calls : RemoteCalls ι κ} {state next : RemoteState ι κ}
variable {label other : RemoteLabel ι κ} {free : RegionMetadata}

/-- The allocation a call is in the middle of, and its payload. -/
def underway (calls : RemoteCalls ι κ) (state : RemoteState ι κ) :
    RemoteLabel ι κ → Option (AllocPc × Bytes)
  | .allocate call => some (state.allocations call, calls.data call)
  | .insert client =>
      match state.insertions client with
      | .allocating _ _ allocation => some (allocation, (calls.inserts client).value)
      | _ => none

/-- The call has returned an error. -/
def Failed (state : RemoteState ι κ) : RemoteLabel ι κ → Prop
  | .allocate call => state.allocations call = .casFailed
  | .insert client => ∃ error, state.insertions client = .returned (.error error)

section Properties

variable [DecidableEq ι] [DecidableEq κ]

/-- What the advertised size promises at a step: every byte written lies inside the region, and a
request that does not fit behind the bump offset it has read fails and leaves the bump offset alone. -/
def StaysInRegion (xxh64 : Xxh64) (calls : RemoteCalls ι κ)
    (free : RegionMetadata) (state : RemoteState ι κ) (label : RemoteLabel ι κ) : Prop :=
  ∀ pc data, underway calls state label = some (pc, data) →
    (∀ address bytes, written xxh64 data state.region pc = some (address, bytes) →
      ∀ skip < bytes.length, Contains (free.vaddr, free.size) (free.vaddr + address + skip)) ∧
    ∀ oldOffset, pc = .haveOld oldOffset → free.size < oldOffset + extentTotal data.length →
      ∀ next, state.step xxh64 calls label = some next →
        Failed next label ∧ bumpOffset next.region = bumpOffset state.region

end Properties

/-- A swap that succeeds reserves a range that fits. -/
def ReservesInRegion (calls : RemoteCalls ι κ) (free : RegionMetadata) (state : RemoteState ι κ)
    (label : RemoteLabel ι κ) : Prop :=
  ∀ pc data, underway calls state label = some (pc, data) → pc = .haveOld (bumpOffset state.region) →
    bumpOffset state.region + extentTotal data.length ≤ free.size

/-- All ranges being filled lie inside the region. -/
def GrantsInRegion (calls : RemoteCalls ι κ) (free : RegionMetadata) (state : RemoteState ι κ) : Prop :=
  ∀ label pc data offset, underway calls state label = some (pc, data) → pc.granted = some offset →
    offset + extentTotal data.length ≤ free.size

private theorem grantsInRegion_initial (table : CuckooTable) (region : Memory) :
    GrantsInRegion calls free (.initial table region) := by
  intro label pc data offset active granted
  cases label with
  | allocate call =>
    obtain ⟨rfl, rfl⟩ := by simpa [underway, RemoteState.initial] using active
    cases granted
  | insert client => cases active

section Steps

variable [DecidableEq ι] [DecidableEq κ] {xxh64 : Xxh64}

/-- A step leaves the allocations of the other calls where they are. -/
theorem underway_of_ne (taken : state.step xxh64 calls label = some next) (differs : other ≠ label) :
    underway calls next other = underway calls state other := by
  cases label with
  | allocate call =>
    obtain ⟨⟨region, pc⟩, _, rfl⟩ := Option.map_eq_some_iff.mp taken
    cases other with
    | allocate another =>
      have apart : another ≠ call := fun same => differs (congrArg _ same)
      simp only [underway, update_of_ne apart]
    | insert client => rfl
  | insert client =>
    obtain ⟨⟨table, region, pc⟩, _, rfl⟩ := Option.map_eq_some_iff.mp taken
    cases other with
    | allocate call => rfl
    | insert another =>
      have apart : another ≠ client := fun same => differs (congrArg _ same)
      simp only [underway, update_of_ne apart]

/-- An allocation that is under way after a step of its call has just begun, or has made one
operation. -/
theorem underway_of_step (taken : state.step xxh64 calls label = some next) {pc : AllocPc}
    {data : Bytes} (active : underway calls next label = some (pc, data)) :
    pc = .start ∨ ∃ before, underway calls state label = some (before, data) ∧
      before.step xxh64 data state.region = some (next.region, pc) := by
  cases label with
  | allocate call =>
    obtain ⟨⟨region, after⟩, moved, rfl⟩ := Option.map_eq_some_iff.mp taken
    obtain ⟨rfl, rfl⟩ := by simpa [underway] using active
    exact .inr ⟨_, rfl, moved⟩
  | insert client =>
    obtain ⟨⟨table, region, after⟩, moved, rfl⟩ := Option.map_eq_some_iff.mp taken
    simp only [underway, update_self] at active
    cases at_ : state.insertions client with
    | allocating home oldLv before =>
      rw [at_] at moved
      obtain ⟨⟨_, allocation⟩, operated, same⟩ := Option.map_eq_some_iff.mp moved
      cases same
      refine .inr ⟨before, ?_, ?_⟩
      · cases allocation <;> simp_all [underway, InsertPc.allocated]
      · cases allocation <;> simp_all [InsertPc.allocated]
    | reading | claiming | writing | returned =>
      rw [at_] at moved
      obtain ⟨_, begins⟩ := region_of_outside (by rintro _ _ _ ⟨⟩) moved
      cases after with
      | allocating home oldLv allocation =>
        obtain ⟨rfl, rfl⟩ := by simpa using active
        exact .inl (begins home oldLv _ rfl)
      | reading | claiming | writing | returned => cases active

/-- A call in the middle of an allocation makes the next operation of it. -/
theorem step_of_underway {pc : AllocPc} {data : Bytes}
    (active : underway calls state label = some (pc, data))
    (taken : state.step xxh64 calls label = some next) :
    ∃ after, pc.step xxh64 data state.region = some (next.region, after) ∧
      (Failed next label ↔ after = .casFailed) := by
  cases label with
  | allocate call =>
    obtain ⟨⟨region, after⟩, moved, rfl⟩ := Option.map_eq_some_iff.mp taken
    obtain ⟨rfl, rfl⟩ := by simpa [underway] using active
    exact ⟨after, moved, by simp [Failed]⟩
  | insert client =>
    obtain ⟨⟨table, region, after⟩, moved, rfl⟩ := Option.map_eq_some_iff.mp taken
    cases at_ : state.insertions client with
    | reading | claiming | writing | returned =>
      simp only [underway, at_] at active
      cases active
    | allocating home oldLv before =>
      simp only [underway, at_, Option.some.injEq, Prod.mk.injEq] at active
      obtain ⟨rfl, rfl⟩ := active
      rw [at_] at moved
      obtain ⟨⟨_, allocation⟩, operated, same⟩ := Option.map_eq_some_iff.mp moved
      cases same
      refine ⟨allocation, operated, ?_⟩
      simp only [Failed, update_self]
      cases allocation <;> simp [InsertPc.allocated]

private theorem enabled_of_underway {pc : AllocPc} {data : Bytes} {result : Memory × AllocPc}
    (active : underway calls state label = some (pc, data))
    (moved : pc.step xxh64 data state.region = some result) :
    ∃ next, state.step xxh64 calls label = some next := by
  cases label with
  | allocate call =>
    obtain ⟨rfl, rfl⟩ := by simpa [underway] using active
    exact Option.isSome_iff_exists.mp (by simp [RemoteState.step, moved])
  | insert client =>
    cases at_ : state.insertions client with
    | reading | claiming | writing | returned =>
      simp only [underway, at_] at active
      cases active
    | allocating home oldLv before =>
      simp only [underway, at_, Option.some.injEq, Prod.mk.injEq] at active
      obtain ⟨rfl, rfl⟩ := active
      exact Option.isSome_iff_exists.mp (by simp [RemoteState.step, InsertPc.step, at_, moved])

theorem GrantsInRegion.step (inside : GrantsInRegion calls free state)
    (reserves : ReservesInRegion calls free state label)
    (taken : state.step xxh64 calls label = some next) : GrantsInRegion calls free next := by
  intro holder pc data offset active granted
  by_cases same : holder = label
  · subst same
    rcases underway_of_step taken active with rfl | ⟨before, earlier, moved⟩
    · cases granted
    · rcases AllocPc.granted_step moved granted with held | ⟨found, atBump⟩
      · exact inside holder before data offset earlier held
      · rw [atBump]
        exact reserves before data earlier found
  · rw [underway_of_ne taken same] at active
    exact inside holder pc data offset active granted

/-- While all ranges lie inside, a step is safe exactly if the reservation it makes fits. -/
theorem GrantsInRegion.staysInRegion_iff (inside : GrantsInRegion calls free state) :
    StaysInRegion xxh64 calls free state label ↔ ReservesInRegion calls free state label := by
  constructor
  · intro stays pc data active found
    subst found
    by_contra beyond
    -- The swap succeeds, so the call goes on to write instead of failing.
    have moved : (AllocPc.haveOld (bumpOffset state.region)).step xxh64 data state.region =
        some (write state.region 0 (encode 8 (bumpOffset state.region + extentTotal data.length)),
          .reserved (bumpOffset state.region)) := by simp [AllocPc.step]
    obtain ⟨next, taken⟩ := enabled_of_underway active moved
    obtain ⟨failed, _⟩ := (stays _ data active).2 _ rfl (not_le.mp beyond) next taken
    obtain ⟨after, operated, failed_iff⟩ := step_of_underway active taken
    rw [moved, Option.some.injEq, Prod.mk.injEq] at operated
    have reserved := failed_iff.mp failed
    rw [← operated.2] at reserved
    cases reserved
  · intro reserves pc data active
    refine ⟨fun address bytes writes skip within => ?_, fun oldOffset found beyond next taken => ?_⟩
    · have room := le_extentTotal data.length
      simp only [headerSize] at room
      simp only [Contains]
      rcases written_cases writes with ⟨found, upper⟩ | ⟨offset, granted, upper⟩
      · have fits := reserves pc data active found
        omega
      · have fits := inside label pc data offset active granted
        omega
    · subst found
      have stale : bumpOffset state.region ≠ oldOffset := by
        intro current
        have fits := reserves _ data active (congrArg _ current.symm)
        omega
      obtain ⟨after, operated, failed_iff⟩ := step_of_underway active taken
      simp only [AllocPc.step, if_neg stale, Option.some.injEq, Prod.mk.injEq] at operated
      exact ⟨failed_iff.mpr operated.2.symm, by rw [← operated.1]⟩

/-- A step changes the region by what the allocation under way writes, and not otherwise. -/
theorem region_of_step (taken : state.step xxh64 calls label = some next) :
    next.region = ((underway calls state label).bind fun allocation =>
      written xxh64 allocation.2 state.region allocation.1).elim state.region fun block =>
        write state.region block.1 block.2 := by
  cases active : underway calls state label with
  | some allocation =>
    obtain ⟨after, moved, _⟩ := step_of_underway active taken
    exact region_of_written moved
  | none =>
    cases label with
    | allocate call => cases active
    | insert client =>
      obtain ⟨⟨table, region, after⟩, moved, rfl⟩ := Option.map_eq_some_iff.mp taken
      cases at_ : state.insertions client with
      | allocating => simp [underway, at_] at active
      | reading | claiming | writing | returned =>
        rw [at_] at moved
        exact (region_of_outside (by rintro _ _ _ ⟨⟩) moved).1

end Steps

/-- For any region metadata a client may have been given, any table and contents of the region, any
allocations and insertions and any interleaving: writes stay inside the region and requests that do not
fit are refused, at every step, exactly if every swap that succeeds reserves a range that fits. -/
theorem region_safe_iff_reservations_fit [DecidableEq ι] [DecidableEq κ]
    (xxh64 : Xxh64) (calls : RemoteCalls ι κ) (free : RegionMetadata)
    (table : CuckooTable) (region : Memory) (labels : List (RemoteLabel ι κ)) :
    Throughout (RemoteState.step xxh64 calls) (StaysInRegion xxh64 calls free)
        (.initial table region) labels ↔
      Throughout (RemoteState.step xxh64 calls) (ReservesInRegion calls free)
        (.initial table region) labels :=
  throughout_congr GrantsInRegion.staysInRegion_iff GrantsInRegion.step
    (grantsInRegion_initial table region)

/-- The server advertises 64 bytes. With the bump offset at their end a one-byte allocation is granted
the range at 64 all the same, and its header goes to the 32 bytes behind the region. -/
theorem allocation_leaves_advertised_region :
    let server := ControlServer.new (BootstrappedEngine.bootstrap 8 4096 4 ⟨3, rfl⟩)
    let free : RegionMetadata := ⟨4096, 0, 64, .freeList, 1⟩
    let calls : RemoteCalls Unit Unit := ⟨fun _ => [0x61], fun _ => ⟨⟨5, FixedBytes.zeros 16⟩, [], .extent⟩⟩
    let xxh64 : Xxh64 := fun _ _ => 0xD24EC4F1A98C6E5B
    let start : RemoteState Unit Unit :=
      .initial server.engine.table (write (fun _ => 0) 0 (encode 8 64))
    free ∈ (server.discover 4096).regions ∧ bumpOffset start.region ≤ free.size ∧
    ∃ state, run (RemoteState.step xxh64 calls) start [.allocate (), .allocate ()] = some state ∧
      state.allocations () = .reserved 64 ∧ bumpOffset state.region = 104 ∧
      (∃ header, written xxh64 [0x61] state.region (.reserved 64) = some (64, header) ∧
        header.length = 32) ∧
      ¬ Throughout (RemoteState.step xxh64 calls) (StaysInRegion xxh64 calls free) start
        [.allocate (), .allocate (), .allocate ()] := by
  intro server free calls xxh64 start
  have header : ∀ region, written xxh64 [0x61] region (.reserved 64) =
      some (64, (⟨extentMagic, 1, 1, 0, 0⟩ : ExtentHeaderV2).toBytes) := by
    intro region
    simp only [written, AllocPc.pendingWrite, List.length_singleton, Option.map_some]
  have seen : (run (RemoteState.step xxh64 calls) start [.allocate (), .allocate ()]).map
      (fun state => (state.allocations (), bumpOffset state.region)) = some (.reserved 64, 104) := by
    decide +kernel
  obtain ⟨state, reached, facts⟩ := Option.map_eq_some_iff.mp seen
  obtain ⟨reserved, bump⟩ := Prod.mk.inj facts
  refine ⟨by simp [free, server, ControlServer.discover, ControlServer.new], by decide +kernel, state,
    reached, reserved, bump, ⟨_, header _, ExtentHeaderV2.toBytes_length _⟩, fun holds => ?_⟩
  have split : Throughout (RemoteState.step xxh64 calls) (StaysInRegion xxh64 calls free) start
      ([.allocate (), .allocate ()] ++ [.allocate ()]) := holds
  obtain ⟨stays, _⟩ := split.right reached
  have active : underway calls state (.allocate ()) = some (.reserved 64, [0x61]) := by
    simp only [underway, reserved, calls]
  have inside := (stays _ _ active).1 _ _ (header _) 0 (by
    rw [ExtentHeaderV2.toBytes_length]
    decide)
  exact absurd inside (by decide)

end Rdmas.Soundness
