import Rdmas.Math.Runs
import Rdmas.Model.Bootstrap
import Rdmas.Model.RemoteAlloc

/-! # Remote allocations partition the region

Successful swaps of the bump word hand out adjacent ranges, whatever the interleaving, provided the
bump offset starts behind the 64-byte header: then no write of a call reaches the bump word. The engine
is bootstrapped with offset 0 instead, and the first reservation takes the header itself.
-/

namespace Rdmas.Soundness

open Rdmas.Model LittleEndian ByteMemory Tiling Runs Function

/-- The offset of a payload that has been written. -/
def payloadAt : AllocPc → Option ℕ
  | .payloadWritten offset | .finished offset => some offset
  | _ => none

section Writes

variable {xxh64 : Xxh64} {data bytes : Bytes} {pc pc' : AllocPc}
variable {address : ℕ}

/-- A write of a call lies within the range it reserved. -/
theorem pendingWrite_inside (pending : pc.pendingWrite xxh64 data = some (address, bytes, pc')) :
    ∃ offset, pc.granted = some offset ∧ pc'.granted = some offset ∧ offset ≤ address ∧
      address + bytes.length ≤ offset + extentTotal data.length := by
  have room := le_extentTotal data.length
  simp only [headerSize] at room
  cases pc with
  | start | haveOld | finished | casFailed => cases pending
  | reserved offset =>
    cases pending
    exact ⟨_, rfl, rfl, le_rfl, by rw [ExtentHeaderV2.toBytes_length, headerSize]; omega⟩
  | headerWritten offset =>
    cases pending
    exact ⟨offset, rfl, rfl, Nat.le_add_right _ _, by rw [headerSize]; omega⟩
  | payloadWritten offset =>
    cases pending
    exact ⟨offset, rfl, rfl, Nat.le_add_right _ _, by rw [encode_length]; omega⟩

/-- The write that completes the payload writes exactly the payload; a later one stays in the header. -/
theorem pendingWrite_payload (pending : pc.pendingWrite xxh64 data = some (address, bytes, pc'))
    {offset : ℕ} (complete : payloadAt pc' = some offset) :
    (address = offset + headerSize ∧ bytes = data) ∨
      (payloadAt pc = some offset ∧ address + bytes.length ≤ offset + headerSize) := by
  cases pc with
  | start | haveOld | finished | casFailed => cases pending
  | reserved =>
    cases pending
    cases complete
  | headerWritten =>
    cases pending
    cases complete
    exact .inl ⟨rfl, rfl⟩
  | payloadWritten =>
    cases pending
    cases complete
    exact .inr ⟨rfl, by rw [encode_length, headerSize]⟩

private theorem granted_of_payloadAt {offset : ℕ} (complete : payloadAt pc = some offset) :
    pc.granted = some offset := by
  cases pc with
  | start | haveOld | reserved | headerWritten | casFailed => cases complete
  | payloadWritten | finished => exact complete

/-- One operation of a call reads the bump word or loses the swap, wins the swap, or writes. -/
theorem AllocPc.step_cases {region region' : Memory}
    (moved : pc.step xxh64 data region = some (region', pc')) :
    (pc.granted = none ∧ pc'.granted = none ∧ pc ≠ .haveOld (bumpOffset region) ∧
      region' = region) ∨
    (pc = .haveOld (bumpOffset region) ∧ pc' = .reserved (bumpOffset region) ∧
      region' = write region 0 (encode 8 (bumpOffset region + extentTotal data.length))) ∨
    ∃ address bytes, pc.pendingWrite xxh64 data = some (address, bytes, pc') ∧
      region' = write region address bytes := by
  cases pc with
  | start =>
    cases moved
    exact .inl ⟨rfl, rfl, nofun, rfl⟩
  | haveOld oldOffset =>
    simp only [AllocPc.step] at moved
    split at moved
    · next current =>
        subst current
        cases moved
        exact .inr (.inl ⟨rfl, rfl, rfl⟩)
    · next stale =>
        cases moved
        exact .inl ⟨rfl, rfl, fun same => stale (AllocPc.haveOld.inj same).symm, rfl⟩
  | reserved | headerWritten | payloadWritten | finished | casFailed =>
    simp only [AllocPc.step] at moved
    obtain ⟨⟨address, bytes, _⟩, pending, stored⟩ := Option.map_eq_some_iff.mp moved
    cases stored
    exact .inr (.inr ⟨address, bytes, pending, rfl⟩)

/-- An operation keeps the range of its call, or reserves the one at the bump offset. -/
theorem AllocPc.granted_step {region region' : Memory} {offset : ℕ}
    (moved : pc.step xxh64 data region = some (region', pc')) (granted : pc'.granted = some offset) :
    pc.granted = some offset ∨ (pc = .haveOld (bumpOffset region) ∧ offset = bumpOffset region) := by
  rcases AllocPc.step_cases moved with
    ⟨_, after, _, _⟩ | ⟨found, rfl, _⟩ | ⟨address, bytes, pending, _⟩
  · rw [after] at granted
    cases granted
  · exact .inr ⟨found, (Option.some.inj granted).symm⟩
  · obtain ⟨held, before, stays, _⟩ := pendingWrite_inside pending
    exact .inl (before.trans (stays.symm.trans granted))

end Writes

variable {ι : Type} [DecidableEq ι] {xxh64 : Xxh64} {data : ι → Bytes}
variable {state next final : AllocState ι} {call : ι} {labels : List ι}

/-- The state after a won swap: the call has reserved the range at the bump offset. -/
def reserveNext (data : ι → Bytes) (state : AllocState ι) (call : ι) : AllocState ι :=
  ⟨write state.region 0 (encode 8 (bumpOffset state.region + extentTotal (data call).length)),
    update state.calls call (.reserved (bumpOffset state.region))⟩

/-- What one operation can do: read the bump word or lose a swap, win a swap, or write. -/
theorem alloc_step_cases (taken : state.step xxh64 data call = some next) :
    (∃ pc, (state.calls call).granted = none ∧ pc.granted = none ∧
      state.calls call ≠ .haveOld (bumpOffset state.region) ∧
      next = ⟨state.region, update state.calls call pc⟩) ∨
    (state.calls call = .haveOld (bumpOffset state.region) ∧ next = reserveNext data state call) ∨
    ∃ address bytes pc, (state.calls call).pendingWrite xxh64 (data call) =
        some (address, bytes, pc) ∧
      next = ⟨write state.region address bytes, update state.calls call pc⟩ := by
  obtain ⟨⟨region, pc⟩, moved, rfl⟩ := Option.map_eq_some_iff.mp taken
  rcases AllocPc.step_cases moved with
    ⟨before, after, stale, rfl⟩ | ⟨found, rfl, rfl⟩ | ⟨address, bytes, pending, rfl⟩
  · exact .inl ⟨pc, before, after, stale, rfl⟩
  · exact .inr (.inl ⟨found, rfl⟩)
  · exact .inr (.inr ⟨address, bytes, pc, pending, rfl⟩)

/-- Reservations partition the region from `base` up to the bump offset, and completed payloads are in
place. -/
structure Partitioned (data : ι → Bytes) (base : ℕ) (state : AllocState ι) : Prop where
  ordered : base ≤ bumpOffset state.region
  inside : ∀ call offset, (state.calls call).granted = some offset →
    base ≤ offset ∧ offset + extentTotal (data call).length ≤ bumpOffset state.region
  apart : ∀ left right leftOffset rightOffset, left ≠ right →
    (state.calls left).granted = some leftOffset →
    (state.calls right).granted = some rightOffset →
    Apart (leftOffset, extentTotal (data left).length)
      (rightOffset, extentTotal (data right).length)
  covered : ∀ address, base ≤ address → address < bumpOffset state.region →
    ∃ call offset, (state.calls call).granted = some offset ∧
      Contains (offset, extentTotal (data call).length) address
  payload : ∀ call offset, payloadAt (state.calls call) = some offset →
    ByteMemory.read state.region (offset + headerSize) (data call).length = data call

omit [DecidableEq ι] in
theorem partitioned_initial (data : ι → Bytes) (region : Memory) :
    Partitioned data (bumpOffset region) (.initial region) where
  ordered := le_rfl
  inside _ _ found := nomatch found
  apart _ _ _ _ _ found := nomatch found
  covered _ lower upper := absurd upper (Nat.not_lt.mpr lower)
  payload _ _ found := nomatch found

/-- A swap that succeeds does not carry the bump offset past 64 bits. -/
def BelowLimit (data : ι → Bytes) (state : AllocState ι) (call : ι) : Prop :=
  state.calls call = .haveOld (bumpOffset state.region) →
    bumpOffset state.region + extentTotal (data call).length < 2 ^ 64

instance (data : ι → Bytes) (state : AllocState ι) (call : ι) :
    Decidable (BelowLimit data state call) := inferInstanceAs (Decidable (_ → _))

theorem bumpOffset_reserve (found : state.calls call = .haveOld (bumpOffset state.region))
    (below : BelowLimit data state call) : bumpOffset (reserveNext data state call).region =
      bumpOffset state.region + extentTotal (data call).length :=
  word_write (below found : _ < 256 ^ 8)

/-- The write a call makes next stays in its own range, which lies behind the bump word. -/
def WritesOwnRange (xxh64 : Xxh64) (data : ι → Bytes) (state : AllocState ι) (call : ι) : Prop :=
  ∀ address bytes pc, (state.calls call).pendingWrite xxh64 (data call) =
      some (address, bytes, pc) →
    8 ≤ address ∧ ∃ range, state.grant data call = some range ∧
      ∀ offset < bytes.length, Contains range (address + offset)

/-- A call that keeps its range, or goes on without one, does not change who holds what. -/
theorem granted_update {pc : AllocPc} (same : pc.granted = (state.calls call).granted) (other : ι) :
    (update state.calls call pc other).granted = (state.calls other).granted := by
  rw [update_apply]
  split
  · next isCall => rw [isCall, same]
  · rfl

namespace Partitioned

variable {base : ℕ} (partitioned : Partitioned data base state)
include partitioned

/-- A call that neither holds nor gains a range changes nothing. -/
theorem settle {pc : AllocPc} (before : (state.calls call).granted = none) (after : pc.granted = none) :
    Partitioned data base ⟨state.region, update state.calls call pc⟩ := by
  have grants := granted_update (after.trans before.symm)
  refine ⟨partitioned.ordered, ?_, ?_, ?_, ?_⟩
  · simpa only [grants] using partitioned.inside
  · simpa only [grants] using partitioned.apart
  · simpa only [grants] using partitioned.covered
  · intro other offset complete
    refine partitioned.payload other offset ?_
    simp only [update_apply] at complete
    split at complete
    · rw [granted_of_payloadAt complete] at after
      contradiction
    · exact complete

/-- A won swap adds the next range; it writes the bump word only, which no payload overlaps. -/
theorem reserve (behind : 64 ≤ base) (found : state.calls call = .haveOld (bumpOffset state.region))
    (below : BelowLimit data state call) : Partitioned data base (reserveNext data state call) := by
  have bump := bumpOffset_reserve found below
  have ordered := partitioned.ordered
  have grants : ∀ other offset, (update state.calls call
      (.reserved (bumpOffset state.region)) other).granted = some offset →
      (other = call ∧ offset = bumpOffset state.region) ∨
        (other ≠ call ∧ (state.calls other).granted = some offset) := by
    intro other offset granted
    rw [update_apply] at granted
    split at granted
    · next same => exact .inl ⟨same, (Option.some.inj granted).symm⟩
    · next differs => exact .inr ⟨differs, granted⟩
  refine ⟨?_, ?_, ?_, ?_, ?_⟩
  · rw [bump]
    omega
  · intro other offset granted
    rw [bump]
    rcases grants other offset granted with ⟨newest, atBump⟩ | ⟨_, held⟩
    · rw [newest, atBump]
      exact ⟨ordered, le_rfl⟩
    · have room := partitioned.inside other offset held
      omega
  · intro left right leftOffset rightOffset differ leftGrant rightGrant
    rcases grants left leftOffset leftGrant with ⟨leftNew, atLeft⟩ | ⟨_, leftHeld⟩ <;>
      rcases grants right rightOffset rightGrant with ⟨rightNew, atRight⟩ | ⟨_, rightHeld⟩
    · exact absurd (leftNew.trans rightNew.symm) differ
    · have room := partitioned.inside right rightOffset rightHeld
      intro address inLeft inRight
      simp only [Contains] at inLeft inRight
      omega
    · have room := partitioned.inside left leftOffset leftHeld
      intro address inLeft inRight
      simp only [Contains] at inLeft inRight
      omega
    · exact partitioned.apart left right leftOffset rightOffset differ leftHeld rightHeld
  · intro address lower upper
    rw [bump] at upper
    rcases Nat.lt_or_ge address (bumpOffset state.region) with old | new
    · obtain ⟨holder, offset, held, contains⟩ := partitioned.covered address lower old
      refine ⟨holder, offset, ?_, contains⟩
      have differs : holder ≠ call := by
        rintro rfl
        rw [found] at held
        cases held
      exact (congrArg AllocPc.granted (update_of_ne differs _ _)).trans held
    · exact ⟨call, bumpOffset state.region, by simp [reserveNext, AllocPc.granted], by simp only; omega,
        by simp only; omega⟩
  · intro other offset complete
    have held : payloadAt (state.calls other) = some offset := by
      simp only [reserveNext, update_apply] at complete
      split at complete
      · cases complete
      · exact complete
    have room := partitioned.inside other offset (granted_of_payloadAt held)
    rw [reserveNext, read_write_outside (.inr (by rw [encode_length]; omega)),
      partitioned.payload other offset held]

omit [DecidableEq ι] in
/-- A write of a call leaves the range of every other call alone. -/
theorem write_frame {address : ℕ} {bytes : Bytes} {pc : AllocPc}
    (pending : (state.calls call).pendingWrite xxh64 (data call) = some (address, bytes, pc)) {other : ι}
    (differs : other ≠ call) {offset : ℕ} (held : (state.calls other).granted = some offset) {query : ℕ}
    (contains : Contains (offset, extentTotal (data other).length) query) :
    ByteMemory.write state.region address bytes query = state.region query := by
  obtain ⟨own, granted, _, lower, upper⟩ := pendingWrite_inside pending
  have separate := partitioned.apart call other own offset (Ne.symm differs) granted held
  apply write_outside
  by_contra hit
  exact separate query ⟨by simp only; omega, by simp only; omega⟩ contains

/-- A write of a call stays in its own range: the bump word and the other payloads are untouched. -/
theorem write (behind : 64 ≤ base) {address : ℕ} {bytes : Bytes} {pc : AllocPc}
    (pending : (state.calls call).pendingWrite xxh64 (data call) = some (address, bytes, pc)) :
    Partitioned data base ⟨ByteMemory.write state.region address bytes,
      update state.calls call pc⟩ := by
  obtain ⟨offset, granted, stays, lower, upper⟩ := pendingWrite_inside pending
  have room := partitioned.inside call offset granted
  have bump : bumpOffset (ByteMemory.write state.region address bytes) = bumpOffset state.region :=
    word_write_outside (.inl (by omega))
  have grants := granted_update (stays.trans granted.symm)
  refine ⟨?_, ?_, ?_, ?_, ?_⟩
  · simpa only [bump] using partitioned.ordered
  · simpa only [bump, grants] using partitioned.inside
  · simpa only [grants] using partitioned.apart
  · simpa only [bump, grants] using partitioned.covered
  · intro other otherOffset complete
    simp only [update_apply] at complete
    split at complete
    · next same =>
        subst same
        rcases pendingWrite_payload pending complete with ⟨rfl, rfl⟩ | ⟨earlier, header⟩
        · exact read_write _ _ _
        · rw [read_write_outside (.inr header), partitioned.payload other otherOffset earlier]
    · next differs =>
        have held := granted_of_payloadAt complete
        have otherRoom := le_extentTotal (data other).length
        refine Eq.trans (read_congr ?_) (partitioned.payload other otherOffset complete)
        intro query first last
        exact partitioned.write_frame pending differs held ⟨by simp only; omega, by simp only; omega⟩

theorem step (behind : 64 ≤ base) (below : BelowLimit data state call)
    (taken : state.step xxh64 data call = some next) : Partitioned data base next := by
  rcases alloc_step_cases taken with
    ⟨pc, before, after, _, rfl⟩ | ⟨found, rfl⟩ | ⟨address, bytes, pc, pending, rfl⟩
  · exact partitioned.settle before after
  · exact partitioned.reserve behind found below
  · exact partitioned.write behind pending

end Partitioned

omit [DecidableEq ι] in
private theorem grant_eq_some {range : Range} :
    state.grant data call = some range ↔ ∃ offset, (state.calls call).granted = some offset ∧
      (offset, extentTotal (data call).length) = range := Option.map_eq_some_iff

omit [DecidableEq ι] in
theorem Partitioned.writesOwnRange {base : ℕ} (behind : 64 ≤ base)
    (partitioned : Partitioned data base state) : WritesOwnRange xxh64 data state call := by
  intro address bytes pc pending
  obtain ⟨offset, granted, _, lower, upper⟩ := pendingWrite_inside pending
  have room := partitioned.inside call offset granted
  refine ⟨by omega, _, grant_eq_some.mpr ⟨offset, granted, rfl⟩, ?_⟩
  intro skip within
  simp only [Contains]
  omega

/-- From any memory whose bump offset lies behind the header, for any calls and any interleaving: the
ranges of the calls whose swap succeeded are pairwise disjoint and make up exactly the region between
the first and the current bump offset, writes stay in the range of their call and off the bump word,
and the payload of a call that has returned is in place. -/
theorem reservations_tile_region (region : Memory) (behind : 64 ≤ bumpOffset region)
    (below : Throughout (AllocState.step xxh64 data) (BelowLimit data) (.initial region) labels)
    (reached : run (AllocState.step xxh64 data) (.initial region) labels = some final) :
    (∀ left right leftRange rightRange, left ≠ right →
      final.grant data left = some leftRange → final.grant data right = some rightRange →
      Apart leftRange rightRange) ∧
    (∀ address, (bumpOffset region ≤ address ∧ address < bumpOffset final.region) ↔
      ∃ call range, final.grant data call = some range ∧ Contains range address) ∧
    Throughout (AllocState.step xxh64 data) (WritesOwnRange xxh64 data) (.initial region) labels ∧
    ∀ call offset, final.calls call = .finished offset →
      ByteMemory.read final.region (offset + 32) (data call).length = data call := by
  have keep : ∀ {state call next}, Partitioned data (bumpOffset region) state →
      BelowLimit data state call → state.step xxh64 data call = some next →
      Partitioned data (bumpOffset region) next :=
    fun partitioned below taken => partitioned.step behind below taken
  have partitioned := below.invariant keep (partitioned_initial data region) reached
  refine ⟨?_, ?_, ?_, ?_⟩
  · intro left right leftRange rightRange differ leftGrant rightGrant
    obtain ⟨leftOffset, leftHeld, rfl⟩ := grant_eq_some.mp leftGrant
    obtain ⟨rightOffset, rightHeld, rfl⟩ := grant_eq_some.mp rightGrant
    exact partitioned.apart left right leftOffset rightOffset differ leftHeld rightHeld
  · intro address
    constructor
    · rintro ⟨lower, upper⟩
      obtain ⟨call, offset, held, contains⟩ := partitioned.covered address lower upper
      exact ⟨call, _, grant_eq_some.mpr ⟨offset, held, rfl⟩, contains⟩
    · rintro ⟨call, range, granted, contains⟩
      obtain ⟨offset, held, rfl⟩ := grant_eq_some.mp granted
      have room := partitioned.inside call offset held
      simp only [Contains] at contains
      omega
  · exact below.derive keep (fun kept _ => kept.writesOwnRange behind) (partitioned_initial data region)
  · intro call offset done
    exact partitioned.payload call offset (by rw [done]; rfl)

/-- Three calls contend: the second loses its swap, the writes of the other two alternate. -/
theorem contended_payloads_in_place :
    let region := write (fun _ => 0) 0 (encode 8 64)
    let data : Fin 3 → Bytes := fun _ => [0x61]
    let labels : List (Fin 3) := [0, 1, 0, 1, 2, 2, 2, 0, 2, 0, 0, 2]
    ∃ final, run (AllocState.step (fun _ _ => 0xD24EC4F1A98C6E5B) data) (.initial region) labels =
        some final ∧
      final.calls 0 = .finished 64 ∧ final.calls 1 = .casFailed ∧ final.calls 2 = .finished 104 ∧
      ByteMemory.read final.region 96 1 = [0x61] ∧ ByteMemory.read final.region 136 1 = [0x61] := by
  intro region data labels
  have ends : (run (AllocState.step (fun _ _ => 0xD24EC4F1A98C6E5B) data) (.initial region)
      labels).map (fun final => (final.calls 0, final.calls 1, final.calls 2)) =
      some (.finished 64, .casFailed, .finished 104) := by decide +kernel
  obtain ⟨final, reached, seen⟩ := Option.map_eq_some_iff.mp ends
  simp only [Prod.mk.injEq] at seen
  obtain ⟨first, second, third⟩ := seen
  obtain ⟨_, _, _, payloads⟩ := reservations_tile_region region (by decide +kernel)
    (by decide +kernel) reached
  exact ⟨final, reached, first, second, third, payloads 0 64 first, payloads 2 104 third⟩

section Header

/-- After a step no reserved range meets the header, and the bump word has changed only if the step is
a swap that succeeded. -/
def HeaderSafe (xxh64 : Xxh64) (data : ι → Bytes) (state : AllocState ι) (call : ι) : Prop :=
  ∀ next, state.step xxh64 data call = some next →
    (∀ other range, next.grant data other = some range → Apart range (0, 64)) ∧
    (bumpOffset next.region ≠ bumpOffset state.region →
      state.calls call = .haveOld (bumpOffset state.region))

/-- A swap that succeeds reserves behind the header. -/
def ReservesBehindHeader (state : AllocState ι) (call : ι) : Prop :=
  state.calls call = .haveOld (bumpOffset state.region) → 64 ≤ bumpOffset state.region

instance (state : AllocState ι) (call : ι) : Decidable (ReservesBehindHeader state call) :=
  inferInstanceAs (Decidable (_ → _))

/-- All ranges reserved so far lie behind the header. -/
def GrantsBehindHeader (state : AllocState ι) : Prop :=
  ∀ call offset, (state.calls call).granted = some offset → 64 ≤ offset

omit [DecidableEq ι] in
/-- A range meets the header exactly if it starts in it. -/
theorem apart_header_iff (offset length : ℕ) :
    Apart (offset, extentTotal length) (0, 64) ↔ 64 ≤ offset := by
  have room := le_extentTotal length
  simp only [headerSize] at room
  constructor
  · intro apart
    by_contra inside
    exact apart offset ⟨le_rfl, by simp only; omega⟩ ⟨Nat.zero_le _, by simp only; omega⟩
  · intro behind address inRange inHeader
    simp only [Contains] at inRange inHeader
    omega

/-- A step of a call can only give that call the range at the bump offset. -/
theorem granted_of_step (taken : state.step xxh64 data call = some next) {other : ι} {offset : ℕ}
    (granted : (next.calls other).granted = some offset) :
    (state.calls other).granted = some offset ∨
      (state.calls call = .haveOld (bumpOffset state.region) ∧ offset = bumpOffset state.region) := by
  obtain ⟨⟨region, pc⟩, moved, rfl⟩ := Option.map_eq_some_iff.mp taken
  simp only [update_apply] at granted
  split at granted
  · next same =>
      subst same
      exact AllocPc.granted_step moved granted
  · exact .inl granted

omit [DecidableEq ι] in
private theorem grantsBehindHeader_initial (region : Memory) :
    GrantsBehindHeader (.initial region : AllocState ι) := fun _ _ found => nomatch found

theorem GrantsBehindHeader.step (behind : GrantsBehindHeader state)
    (reserves : ReservesBehindHeader state call) (taken : state.step xxh64 data call = some next) :
    GrantsBehindHeader next := by
  intro other offset granted
  rcases granted_of_step taken granted with held | ⟨found, atBump⟩
  · exact behind other offset held
  · rw [atBump]
    exact reserves found

theorem GrantsBehindHeader.headerSafe_iff (behind : GrantsBehindHeader state) :
    HeaderSafe xxh64 data state call ↔ ReservesBehindHeader state call := by
  constructor
  · intro safe found
    have taken : state.step xxh64 data call = some (reserveNext data state call) := by
      simp only [AllocState.step, found, AllocPc.step, if_pos, Option.map_some, reserveNext]
    refine (apart_header_iff _ (data call).length).mp ((safe _ taken).1 call _ ?_)
    simp [AllocState.grant, reserveNext, AllocPc.granted]
  · intro reserves next taken
    have kept := behind.step reserves taken
    refine ⟨?_, ?_⟩
    · intro other range granted
      obtain ⟨offset, held, rfl⟩ := grant_eq_some.mp granted
      exact (apart_header_iff _ _).mpr (kept other offset held)
    · intro changed
      rcases alloc_step_cases taken with
        ⟨pc, _, _, _, rfl⟩ | ⟨found, _⟩ | ⟨address, bytes, pc, pending, rfl⟩
      · exact absurd rfl changed
      · exact found
      · obtain ⟨offset, granted, _, lower, _⟩ := pendingWrite_inside pending
        have room := behind call offset granted
        exact absurd (word_write_outside (.inl (by omega))) changed

end Header

/-- For every bootstrapped engine, any other contents of the region, any calls and any interleaving: the
header is safe at every step exactly if every swap that succeeds finds the bump offset behind it. -/
theorem header_safe_iff_reserves_behind
    (bucketCount largeObjectRegionSize maxKick slabChunkSize slabRegionSize : ℕ)
    (powerOfTwo : bucketCount.isPowerOfTwo) (memory : Memory) :
    let engine := BootstrappedEngine.bootstrapWithSlab bucketCount largeObjectRegionSize maxKick
      slabChunkSize slabRegionSize powerOfTwo
    let start : AllocState ι := .initial (write memory 0 engine.freeList.toBytes)
    Throughout (AllocState.step xxh64 data) (HeaderSafe xxh64 data) start labels ↔
      Throughout (AllocState.step xxh64 data) ReservesBehindHeader start labels :=
  throughout_congr GrantsBehindHeader.headerSafe_iff GrantsBehindHeader.step
    (grantsBehindHeader_initial _)

/-- Calls that only read the bump word, or lose the swap, leave the header alone; the call that wins the
first swap does not. -/
theorem header_safe_until_first_reservation :
    let engine := BootstrappedEngine.bootstrapWithSlab 8 4096 4 0 0 ⟨3, rfl⟩
    let start : AllocState (Fin 2) := .initial (write (fun _ => 0) 0 engine.freeList.toBytes)
    let step := AllocState.step (fun _ _ => 0xD24EC4F1A98C6E5B) fun _ => [0x61]
    let safe := HeaderSafe (fun _ _ => 0xD24EC4F1A98C6E5B) fun _ => [0x61]
    Throughout step safe start [0, 1] ∧ ¬ Throughout step safe start [0, 1, 0] :=
  ⟨(header_safe_iff_reserves_behind 8 4096 4 0 0 ⟨3, rfl⟩ _).mpr (by decide +kernel),
    fun holds => absurd ((header_safe_iff_reserves_behind 8 4096 4 0 0 ⟨3, rfl⟩ _).mp holds)
      (by decide +kernel)⟩

/-- On a freshly bootstrapped engine the first extent takes the bytes of the header: writing its magic
turns the bump offset 40 into `0x152444D41` without a swap. -/
theorem first_extent_overwrites_header :
    let engine := BootstrappedEngine.bootstrapWithSlab 8 4096 4 0 0 ⟨3, rfl⟩
    let start : AllocState Unit := .initial (write (fun _ => 0) 0 engine.freeList.toBytes)
    let data : Unit → Bytes := fun _ => [0x61]
    let step := AllocState.step (fun _ _ => 0xD24EC4F1A98C6E5B) data
    ∃ state next, run step start [(), ()] = some state ∧ step state () = some next ∧
      state.grant data () = some (0, 40) ∧ ¬ Apart (0, 40) (0, 64) ∧
      state.calls () = .reserved 0 ∧
      bumpOffset state.region = 40 ∧ bumpOffset next.region = 0x152444D41 := by
  intro engine start data step
  have seen : (run step start [(), ()]).map (fun state =>
      (state.grant data (), state.calls (), bumpOffset state.region,
        (step state ()).map fun next => bumpOffset next.region)) =
      some (some (0, 40), .reserved 0, 40, some 0x152444D41) := by decide +kernel
  obtain ⟨state, reached, facts⟩ := Option.map_eq_some_iff.mp seen
  simp only [Prod.mk.injEq] at facts
  obtain ⟨granted, reserved, bump, overwritten⟩ := facts
  obtain ⟨next, taken, magic⟩ := Option.map_eq_some_iff.mp overwritten
  exact ⟨state, next, reached, taken, granted, fun apart => apart 0 (by decide) (by decide),
    reserved, bump, magic⟩

end Rdmas.Soundness
