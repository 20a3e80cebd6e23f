import Rdmas.Math.Tally
import Rdmas.Soundness.LockEffects
import Rdmas.Soundness.RemoteAlloc

/-! # A swap fails only because somebody else got on

`try_acquire_lock` loops while its swaps fail, `allocate_remote` gives up after one. Neither can fail for
nothing: between the load and the swap of a client nothing but a step of somebody else changes the word. So a
client is held up at most as often as others succeed, and of several allocations that compete at least one is
granted.
-/

namespace Rdmas.Soundness

open Rdmas.Model LittleEndian Runs ByteMemory Function

section Locks

variable {ι ρ : Type} {state next final : LockState ι ρ} {client : ι} {label : LockLabel ι ρ}

/-- The client is about to swap a word that is no longer there. -/
def staleSwap (client : ι) (state : LockState ι ρ) : Bool :=
  match state.clients client with
  | .loaded _ oldLv => state.bucket.lockVersion != oldLv
  | _ => false

private theorem staleSwap_loaded {mode : BucketMode} {oldLv : BitVec 64}
    (found : state.clients client = .loaded mode oldLv) :
    staleSwap client state = (state.bucket.lockVersion != oldLv) := by
  rw [staleSwap, found]

theorem staleSwap_of_not_loaded (elsewhere : ∀ mode oldLv, state.clients client ≠ .loaded mode oldLv) :
    staleSwap client state = false := by
  unfold staleSwap
  split
  · next mode oldLv found => exact absurd found (elsewhere mode oldLv)
  · rfl

private theorem staleSwap_congr (same : ∀ mode oldLv,
      next.clients client = .loaded mode oldLv ↔ state.clients client = .loaded mode oldLv)
    (word : next.bucket.lockVersion = state.bucket.lockVersion) :
    staleSwap client next = staleSwap client state := by
  by_cases loaded : ∃ mode oldLv, state.clients client = .loaded mode oldLv
  · obtain ⟨mode, oldLv, found⟩ := loaded
    rw [staleSwap_loaded found, staleSwap_loaded ((same mode oldLv).mpr found), word]
  · have elsewhere : ∀ mode oldLv, state.clients client ≠ .loaded mode oldLv :=
      fun mode oldLv found => loaded ⟨mode, oldLv, found⟩
    rw [staleSwap_of_not_loaded elsewhere,
      staleSwap_of_not_loaded fun mode oldLv found => elsewhere mode oldLv ((same mode oldLv).mp found)]

private theorem evictHolders_loaded (mode : BucketMode) (oldLv : BitVec 64) :
    state.evictHolders.clients client = .loaded mode oldLv ↔ state.clients client = .loaded mode oldLv := by
  simp only [LockState.evictHolders]
  cases state.clients client <;> simp

variable [DecidableEq ι]

/-- A swap of the client that fails. -/
def failedSwap (client : ι) (state : LockState ι ρ) : LockLabel ι ρ → ℕ
  | .casLock swapper _ => if swapper = client ∧ staleSwap client state = true then 1 else 0
  | _ => 0

private theorem failedSwap_le (client : ι) (state : LockState ι ρ) (label : LockLabel ι ρ) :
    failedSwap client state label ≤ (staleSwap client state).toNat := by
  cases label with
  | casLock swapper now =>
    simp only [failedSwap]
    split
    · next failed => rw [failed.2, Bool.toNat_true]
    · exact Nat.zero_le _
  | tryAcquire | loadLock | writeKeyHash | writeDigest | writeBody | releaseLock | forceTakeover | read =>
    exact Nat.zero_le _

theorem failedSwap_foreign (foreign : actor label ≠ some client) : failedSwap client state label = 0 := by
  cases label with
  | casLock swapper now => exact if_neg fun failed => foreign (congrArg some failed.1)
  | tryAcquire | loadLock | writeKeyHash | writeDigest | writeBody | releaseLock | forceTakeover | read => rfl

variable [DecidableEq ρ]

/-- A step of somebody else that leaves another word behind. -/
def foreignChange (client : ι) (state : LockState ι ρ) (label : LockLabel ι ρ) : ℕ :=
  if actor label ≠ some client ∧
      (state.step label).any (fun next => next.bucket.lockVersion != state.bucket.lockVersion) = true then 1
  else 0

/-- Nobody else makes a client load a word or forget it, and after a step of its own a client does not hold a
stale word. -/
theorem words_of_step (taken : state.step label = some next) :
    (actor label ≠ some client → ∀ mode oldLv,
      (next.clients client = .loaded mode oldLv ↔ state.clients client = .loaded mode oldLv)) ∧
    (actor label = some client → staleSwap client next = false) := by
  have apart : ∀ {other : ι} {pc : ClientPc} {before : LockState ι ρ}, some other ≠ some client →
      ∀ mode oldLv, ((before.setClient other pc).clients client = .loaded mode oldLv ↔
        before.clients client = .loaded mode oldLv) := by
    intro other pc before foreign mode oldLv
    have differs : client ≠ other := fun same => foreign (congrArg some same.symm)
    simp only [LockState.setClient, update_of_ne differs]
  have settled : ∀ {other : ι} {pc : ClientPc} {after : LockState ι ρ}, after.clients other = pc →
      (∀ mode oldLv, pc ≠ .loaded mode oldLv) → some other = some client →
      staleSwap client after = false := by
    rintro other pc after rfl elsewhere ⟨⟩
    exact staleSwap_of_not_loaded elsewhere
  cases effect_of_step taken with
  | settle other pc _ _ _ _ _ acts current =>
    refine ⟨fun foreign => apart (acts ▸ foreign), fun own => ?_⟩
    obtain rfl := Option.some.inj (acts.symm.trans own)
    simp only [staleSwap, LockState.setClient, update_self]
    cases pc with
    | loaded mode oldLv =>
      rw [current mode oldLv rfl]
      exact bne_self_eq_false _
    | _ => rfl
  | acquire other now mode oldLv =>
    refine ⟨fun foreign mode oldLv => (apart foreign mode oldLv).trans ?_,
      settled (update_self ..) (by rintro _ _ ⟨⟩)⟩
    simp only [LockState.setLock]
    split
    · exact evictHolders_loaded mode oldLv
    · rfl
  | write other prev takenOver bucket held _ _ _ _ acts =>
    exact ⟨fun _ _ _ => Iff.rfl, fun own => settled held (by rintro _ _ ⟨⟩) (acts.symm.trans own)⟩
  | release => exact ⟨apart, settled (update_self ..) (by rintro _ _ ⟨⟩)⟩
  | force => exact ⟨fun _ mode oldLv => evictHolders_loaded mode oldLv, by rintro ⟨⟩⟩
  | refuse | observe => exact ⟨fun _ _ _ => Iff.rfl, by rintro ⟨⟩⟩

/-- What a client loses to others, with the swap it is about to lose, they have changed. -/
theorem staleSwap_advance (taken : state.step label = some next) :
    (staleSwap client next).toNat + failedSwap client state label ≤
      (staleSwap client state).toNat + foreignChange client state label := by
  by_cases own : actor label = some client
  · rw [(words_of_step taken).2 own, Bool.toNat_false, Nat.zero_add]
    exact Nat.le_add_right_of_le (failedSwap_le client state label)
  · rw [failedSwap_foreign own, Nat.add_zero]
    by_cases same : next.bucket.lockVersion = state.bucket.lockVersion
    · rw [staleSwap_congr ((words_of_step taken).1 own) same]
      exact Nat.le_add_right ..
    · have changed : foreignChange client state label = 1 := by
        refine if_pos ⟨own, ?_⟩
        rw [taken, Option.any_some]
        exact bne_iff_ne.mpr same
      rw [changed]
      exact Nat.le_add_left_of_le (Bool.toNat_le _)

/-- Whatever the interleaving of lock operations, takeovers and reads on a bucket: the swaps of a client that
fail are at most as many as the changes others have made to the lock word. -/
theorem failed_swaps_are_paid_by_others {labels : List (LockLabel ι ρ)} (bucket : HashBucket) (client : ι)
    (reached : run LockState.step (.initial bucket) labels = some final) :
    tally LockState.step (failedSwap client) (.initial bucket) labels ≤
      tally LockState.step (foreignChange client) (.initial bucket) labels := by
  have fresh : (staleSwap client (.initial bucket : LockState ι ρ)).toNat = 0 := rfl
  have paid : (staleSwap client final).toNat +
      tally LockState.step (failedSwap client) (.initial bucket) labels ≤
        (staleSwap client (.initial bucket : LockState ι ρ)).toNat +
          tally LockState.step (foreignChange client) (.initial bucket) labels :=
    tally_add_le (fun state => (staleSwap client state).toNat) (fun taken => staleSwap_advance taken) reached
  omega

/-- Two clients load the word of a free bucket; one swaps, the other fails once, for that one change. -/
theorem lost_race_is_paid_by_winner :
    let labels : List (LockLabel Bool Empty) := [.tryAcquire false .inline, .tryAcquire true .inline,
      .loadLock false 0, .loadLock true 0, .casLock false 0, .casLock true 0]
    tally LockState.step (failedSwap true) (.initial HashBucket.zeroed) labels = 1 ∧
      1 ≤ tally LockState.step (foreignChange true) (.initial HashBucket.zeroed) labels := by
  intro labels
  have runs : (run LockState.step (.initial HashBucket.zeroed) labels).isSome = true := by decide +kernel
  obtain ⟨final, reached⟩ := Option.isSome_iff_exists.mp runs
  have failed : tally LockState.step (failedSwap true) (.initial HashBucket.zeroed) labels = 1 := by
    decide +kernel
  exact ⟨failed, failed ▸ failed_swaps_are_paid_by_others HashBucket.zeroed true reached⟩

end Locks

section Calls

variable {xxh64 : Xxh64} {data : Bytes} {region region' : Memory} {pc : AllocPc}

/-- Only the first read gives a call an offset to swap. -/
theorem AllocPc.haveOld_of_step {oldOffset : ℕ}
    (moved : pc.step xxh64 data region = some (region', .haveOld oldOffset)) :
    oldOffset = bumpOffset region ∧ region' = region := by
  rcases AllocPc.step_cases moved with ⟨before, _, _, same⟩ | ⟨_, reserved, _⟩ | ⟨_, _, pending, _⟩
  · cases pc with
    | start =>
      simp only [AllocPc.step, Option.some.injEq, Prod.mk.injEq, AllocPc.haveOld.injEq] at moved
      exact ⟨moved.2.symm, same⟩
    | haveOld =>
      simp only [AllocPc.step] at moved
      split at moved <;> cases moved
    | casFailed => cases moved
    | reserved | headerWritten | payloadWritten | finished => cases before
  · cases reserved
  · obtain ⟨_, _, granted, _⟩ := pendingWrite_inside pending
    cases granted

/-- Only a stale offset makes a call fail. -/
theorem AllocPc.casFailed_of_step (moved : pc.step xxh64 data region = some (region', .casFailed)) :
    ∃ oldOffset ≠ bumpOffset region, pc = .haveOld oldOffset ∧ region' = region := by
  rcases AllocPc.step_cases moved with ⟨before, _, stale, same⟩ | ⟨_, reserved, _⟩ | ⟨_, _, pending, _⟩
  · cases pc with
    | haveOld oldOffset => exact ⟨oldOffset, fun current => stale (congrArg _ current), rfl, same⟩
    | start | casFailed => cases moved
    | reserved | headerWritten | payloadWritten | finished => cases before
  · cases reserved
  · obtain ⟨_, _, granted, _⟩ := pendingWrite_inside pending
    cases granted

end Calls

section Allocations

variable {ι : Type} {xxh64 : Xxh64} {data : ι → Bytes}
variable {state next final : AllocState ι} {call mover : ι} {labels : List ι} {base : ℕ}

/-- A call has read an offset no larger than the present one; if it has lost its swap, the offset has
grown. -/
structure Overtaken (data : ι → Bytes) (base : ℕ) (call : ι) (state : AllocState ι) : Prop where
  partitioned : Partitioned data base state
  read : ∀ oldOffset, state.calls call = .haveOld oldOffset →
    base ≤ oldOffset ∧ oldOffset ≤ bumpOffset state.region
  lost : state.calls call = .casFailed → base < bumpOffset state.region

private theorem overtaken_initial (region : Memory) :
    Overtaken data (bumpOffset region) call (.initial region) where
  partitioned := partitioned_initial data region
  read _ found := by cases found
  lost found := by cases found

variable [DecidableEq ι]

/-- What a step does to the call that makes it, and to the others. -/
theorem calls_of_step (taken : state.step xxh64 data mover = some next) :
    (state.calls mover).step xxh64 (data mover) state.region = some (next.region, next.calls mover) ∧
      ∀ other ≠ mover, next.calls other = state.calls other := by
  obtain ⟨⟨region, pc⟩, moved, rfl⟩ := Option.map_eq_some_iff.mp taken
  refine ⟨?_, fun other differs => update_of_ne differs ..⟩
  rw [moved]
  simp only [update_self]

/-- The bump offset never goes back. -/
theorem Partitioned.bumpOffset_le (behind : 64 ≤ base) (partitioned : Partitioned data base state)
    (below : BelowLimit data state mover) (taken : state.step xxh64 data mover = some next) :
    bumpOffset state.region ≤ bumpOffset next.region := by
  rcases alloc_step_cases taken with
    ⟨pc, _, _, _, rfl⟩ | ⟨found, rfl⟩ | ⟨address, bytes, pc, pending, rfl⟩
  · exact le_rfl
  · rw [bumpOffset_reserve found below]
    exact Nat.le_add_right ..
  · obtain ⟨offset, granted, _, lower, _⟩ := pendingWrite_inside pending
    have room := partitioned.inside mover offset granted
    exact (word_write_outside (.inl (by omega))).ge

theorem Overtaken.step (behind : 64 ≤ base) (overtaken : Overtaken data base call state)
    (below : BelowLimit data state mover) (taken : state.step xxh64 data mover = some next) :
    Overtaken data base call next := by
  have grows := overtaken.partitioned.bumpOffset_le behind below taken
  obtain ⟨moved, others⟩ := calls_of_step taken
  refine ⟨overtaken.partitioned.step behind below taken, fun oldOffset found => ?_, fun found => ?_⟩
  · by_cases own : call = mover
    · subst own
      rw [found] at moved
      obtain ⟨current, same⟩ := AllocPc.haveOld_of_step moved
      rw [current, same]
      exact ⟨overtaken.partitioned.ordered, le_rfl⟩
    · obtain ⟨lower, upper⟩ := overtaken.read oldOffset (others call own ▸ found)
      exact ⟨lower, upper.trans grows⟩
  · by_cases own : call = mover
    · subst own
      rw [found] at moved
      obtain ⟨oldOffset, stale, before, same⟩ := AllocPc.casFailed_of_step moved
      obtain ⟨lower, upper⟩ := overtaken.read oldOffset before
      rw [same]
      exact lower.trans_lt (lt_of_le_of_ne upper stale)
    · exact (overtaken.lost (others call own ▸ found)).trans_le grows

/-- From any memory whose bump offset lies behind the header, for any calls and any interleaving that stays
below 64 bits: if a call has lost its swap, another one has been granted the space at the first offset. -/
theorem lost_reservation_was_granted_to_another (region : Memory) (behind : 64 ≤ bumpOffset region)
    (below : Throughout (AllocState.step xxh64 data) (BelowLimit data) (.initial region) labels)
    (reached : run (AllocState.step xxh64 data) (.initial region) labels = some final)
    (lost : final.calls call = .casFailed) :
    ∃ other ≠ call, (final.calls other).granted = some (bumpOffset region) := by
  have overtaken : Overtaken data (bumpOffset region) call final :=
    below.invariant (fun overtaken below taken => overtaken.step behind below taken) (overtaken_initial region)
      reached
  -- The byte at the first offset lies in somebody's range, which begins there.
  obtain ⟨other, offset, granted, starts, _⟩ :=
    overtaken.partitioned.covered (bumpOffset region) le_rfl (overtaken.lost lost)
  have first : offset = bumpOffset region :=
    le_antisymm starts (overtaken.partitioned.inside other offset granted).1
  refine ⟨other, ?_, first ▸ granted⟩
  rintro rfl
  rw [lost] at granted
  cases granted

/-- Two calls read the same offset. The second one loses its swap to the first. -/
theorem second_reservation_loses_to_first :
    let region := ByteMemory.write (fun _ => 0) 0 (encode 8 64)
    let data : Bool → Bytes := fun _ => [0x61]
    ∃ final, run (AllocState.step (fun _ _ => 0) data) (.initial region) [false, true, false, true] =
        some final ∧
      final.calls true = .casFailed ∧
      ∃ other ≠ true, (final.calls other).granted = some (bumpOffset region) := by
  intro region data
  have seen : (run (AllocState.step (fun _ _ => 0) data) (.initial region) [false, true, false, true]).map
      (fun final => final.calls true) = some .casFailed := by decide +kernel
  obtain ⟨final, reached, lost⟩ := Option.map_eq_some_iff.mp seen
  exact ⟨final, reached, lost, lost_reservation_was_granted_to_another region (by decide +kernel)
    (by decide +kernel) reached lost⟩

end Allocations

end Rdmas.Soundness
