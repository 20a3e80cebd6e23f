import Rdmas.Math.Eras
import Rdmas.Model.Concurrency

/-! # Leases across the wrap of their clock

A lease keeps 24 bits of the 32-bit clock, and the lease test subtracts two 24-bit stamps in 32 bits.
While the clock stays in one era of 2 ^ 24 ms the difference is the time that has passed. Once it has
crossed the end of the era the subtraction borrows from bits the stamps do not have, the difference
exceeds every timeout a lease can have, and a lock stamped a millisecond ago counts as expired.

The test of the bucket itself subtracts the 24-bit stamp from the 32-bit clock. It is right in the first era
only, and takes every lock of a later one for expired.
-/

namespace Rdmas.Soundness

open Rdmas.Model

variable {ι ρ : Type} [DecidableEq ι] [DecidableEq ρ]
variable {oldLv word : BitVec 64} {stamped now timeoutMs : BitVec 32} {mode : BucketMode} {elapsed : ℕ}

/-- The clock has not crossed a multiple of 2 ^ 24 ms since the lock was stamped. -/
def SameLeaseEra (stamped : BitVec 32) (elapsed : ℕ) : Prop :=
  Eras.era (2 ^ 24) (stamped.toNat + elapsed) = Eras.era (2 ^ 24) stamped.toNat

instance : Decidable (SameLeaseEra stamped elapsed) := inferInstanceAs (Decidable (_ = _))

/-- What a lease promises about a lock word of a given age: the test says expired exactly when more
than the timeout has passed, and before the default timeout is over neither `force_takeover` nor
`try_acquire_lock` takes the lock over. -/
structure LeaseHonoured (ι ρ : Type) [DecidableEq ι] [DecidableEq ρ] (word : BitVec 64)
    (now timeoutMs : BitVec 32) (elapsed : ℕ) : Prop where
  truthful : isLeaseExpired (LockWord.leaseTs word) now timeoutMs = true ↔ timeoutMs.toNat < elapsed
  kept : elapsed < leaseTimeoutMs.toNat → ∀ bucket : HashBucket, bucket.lockVersion = word →
    forceTakeover bucket now leaseTimeoutMs = (bucket, .notExpired)
  refused : elapsed < leaseTimeoutMs.toNat →
    ∀ (state : LockState ι ρ) (client : ι) (mode : BucketMode), state.bucket.lockVersion = word →
      state.clients client = .trying mode →
      state.step (.loadLock client now) = some (state.setClient client .idle)

/-- The 24 bits of a clock reading that a lease keeps. -/
private theorem toNat_lease (now : BitVec 32) :
    (now &&& 0xFFFFFF#32).toNat = Eras.reading (2 ^ 24) now.toNat := by
  rw [BitVec.toNat_and]
  exact Nat.and_two_pow_sub_one_eq_mod now.toNat 24

/-- The era of the lease divides that of the clock, so the wrap of the clock does not show. -/
private theorem reading_clock (stamped : BitVec 32) (elapsed : ℕ) :
    Eras.reading (2 ^ 24) (stamped + BitVec.ofNat 32 elapsed).toNat =
      Eras.reading (2 ^ 24) (stamped.toNat + elapsed) := by
  rw [BitVec.toNat_add, BitVec.toNat_ofNat]
  simp only [Eras.reading]
  omega

/-- What the lease test computes from a word stamped by `try_acquire_lock`. -/
theorem isLeaseExpired_acquireWord :
    isLeaseExpired (LockWord.leaseTs (acquireWord oldLv stamped mode)) now timeoutMs =
      decide (timeoutMs.toNat < (2 ^ 32 - Eras.reading (2 ^ 24) stamped.toNat +
        Eras.reading (2 ^ 24) now.toNat) % 2 ^ 32) := by
  have masked : (stamped &&& 0xFFFFFF#32) &&& 0xFFFFFF#32 = stamped &&& 0xFFFFFF#32 := by
    rw [BitVec.and_assoc, BitVec.and_self]
  rw [acquireWord_eq, LockWord.leaseTs_pack _ _ _ (by decide)]
  simp only [isLeaseExpired, masked, BitVec.lt_def, BitVec.toNat_sub, toNat_lease]

/-- Within an era the test compares the time that has passed. -/
theorem isLeaseExpired_of_same (recent : elapsed < 2 ^ 24) (same : SameLeaseEra stamped elapsed) :
    isLeaseExpired (LockWord.leaseTs (acquireWord oldLv stamped mode))
      (stamped + BitVec.ofNat 32 elapsed) timeoutMs = decide (timeoutMs.toNat < elapsed) := by
  have small : Eras.reading (2 ^ 24) stamped.toNat < 2 ^ 24 := Eras.reading_lt (by decide) _
  rw [isLeaseExpired_acquireWord, reading_clock, Eras.reading_add_of_era_eq same]
  congr 2
  omega

/-- Across the end of an era every lease counts as expired. -/
theorem isLeaseExpired_of_crossed (recent : elapsed < 2 ^ 24) (short : timeoutMs.toNat < 2 ^ 24)
    (crossed : ¬ SameLeaseEra stamped elapsed) :
    isLeaseExpired (LockWord.leaseTs (acquireWord oldLv stamped mode))
      (stamped + BitVec.ofNat 32 elapsed) timeoutMs = true := by
  have small : Eras.reading (2 ^ 24) stamped.toNat < 2 ^ 24 := Eras.reading_lt (by decide) _
  have fallen := Eras.reading_add_of_era_ne recent crossed
  rw [isLeaseExpired_acquireWord, reading_clock, decide_eq_true_eq]
  omega

/-- `try_acquire_lock` gives up on a lock whose lease it judges unexpired. -/
theorem loadLock_refused {state : LockState ι ρ} {client : ι}
    (trying : state.clients client = .trying mode) (locked : state.bucket.isLocked = true)
    (valid : isLeaseExpired state.bucket.leaseTs now leaseTimeoutMs = false) :
    state.step (.loadLock client now) = some (state.setClient client .idle) := by
  have refused : (LockWord.isLocked state.bucket.lockVersion &&
      !isLeaseExpired (LockWord.leaseTs state.bucket.lockVersion) now leaseTimeoutMs) = true := by
    simp only [HashBucket.isLocked, HashBucket.leaseTs] at locked valid
    rw [locked, valid]
    rfl
  simp only [LockState.step, trying, refused, if_true]

/-- The lease of every lock is honoured exactly as long as its clock stays in one era, or where the
lock has outlived both timeouts anyway. -/
theorem leaseHonoured_iff (oldLv : BitVec 64) (stamped : BitVec 32) (mode : BucketMode)
    (recent : elapsed < 2 ^ 24) (short : timeoutMs.toNat < 2 ^ 24) :
    LeaseHonoured ι ρ (acquireWord oldLv stamped mode) (stamped + BitVec.ofNat 32 elapsed)
        timeoutMs elapsed ↔
      SameLeaseEra stamped elapsed ∨
        timeoutMs.toNat < elapsed ∧ leaseTimeoutMs.toNat ≤ elapsed := by
  constructor
  · intro honoured
    by_contra neither
    obtain ⟨crossed, early⟩ := not_or.mp neither
    have late := honoured.truthful.mp (isLeaseExpired_of_crossed recent short crossed)
    have soon : elapsed < leaseTimeoutMs.toNat := by
      by_contra past
      exact early ⟨late, not_lt.mp past⟩
    -- The test fails for the default timeout too, so `force_takeover` takes the lock.
    let bucket : HashBucket := { HashBucket.zeroed with lockVersion := acquireWord oldLv stamped mode }
    have stale : (bucket.isLocked && isLeaseExpired bucket.leaseTs
        (stamped + BitVec.ofNat 32 elapsed) leaseTimeoutMs) = true := by
      rw [Bool.and_eq_true]
      exact ⟨isLocked_acquireWord _ _ _, isLeaseExpired_of_crossed recent (by decide) crossed⟩
    have kept := honoured.kept soon bucket rfl
    rw [forceTakeover_expired stale] at kept
    exact absurd (congrArg Prod.snd kept) (by simp)
  · rintro (same | ⟨late, past⟩)
    · have valid : elapsed < leaseTimeoutMs.toNat →
          isLeaseExpired (LockWord.leaseTs (acquireWord oldLv stamped mode))
            (stamped + BitVec.ofNat 32 elapsed) leaseTimeoutMs = false := by
        intro soon
        rw [isLeaseExpired_of_same recent same, decide_eq_false_iff_not]
        exact not_lt.mpr soon.le
      refine ⟨?_, fun soon bucket held => ?_, fun soon state client wanted held trying => ?_⟩
      · rw [isLeaseExpired_of_same recent same, decide_eq_true_eq]
      · have locked : bucket.isLocked = true := by simp [HashBucket.isLocked, held]
        rw [forceTakeover_refused, locked, if_pos rfl]
        rw [locked, Bool.true_and, HashBucket.leaseTs, held]
        exact valid soon
      · refine loadLock_refused trying (by simp [HashBucket.isLocked, held]) ?_
        rw [HashBucket.leaseTs, held]
        exact valid soon
    · refine ⟨?_, fun soon => absurd past (not_le.mpr soon), fun soon => absurd past (not_le.mpr soon)⟩
      refine iff_of_true ?_ late
      by_cases same : SameLeaseEra stamped elapsed
      · rw [isLeaseExpired_of_same recent same]
        exact decide_eq_true late
      · exact isLeaseExpired_of_crossed recent short same

/-- Fifty milliseconds into a lease, with no wrap in between. -/
theorem leaseHonoured_within_era :
    LeaseHonoured (Fin 2) (Fin 1) (acquireWord 0 1000 .inline) (1000 + BitVec.ofNat 32 50) 100 50 :=
  (leaseHonoured_iff 0 1000 .inline (by decide) (by decide)).mpr (.inl (by decide))

/-- A lock stamped in the last millisecond of an era is stolen a millisecond later. -/
theorem lease_stolen_at_wrap :
    isLeaseExpired (LockWord.leaseTs (acquireWord 0 0xFFFFFF .inline)) (0xFFFFFF + 1) leaseTimeoutMs =
        true ∧
      ¬ LeaseHonoured (Fin 2) (Fin 1) (acquireWord 0 0xFFFFFF .inline) (0xFFFFFF + 1)
        leaseTimeoutMs 1 := by
  refine ⟨by decide, fun honoured => ?_⟩
  exact absurd (honoured.truthful.mp (by decide)) (by decide)

section OwnTest

variable {bucket : HashBucket}

/-- What the bucket's own test computes from a stamp of `set_locked`: it takes the 24 bits of the stamp from
all 32 bits of the clock. -/
theorem isExpired_setLocked :
    (bucket.setLocked stamped mode).isExpired now timeoutMs =
      decide (timeoutMs.toNat ≤ (2 ^ 32 - Eras.reading (2 ^ 24) stamped.toNat + now.toNat) % 2 ^ 32) := by
  have word : (bucket.setLocked stamped mode).lockVersion =
      acquireWord bucket.lockVersion stamped mode := rfl
  have locked : (bucket.setLocked stamped mode).isLocked = true := by
    rw [HashBucket.isLocked, word, isLocked_acquireWord]
  have lease : (bucket.setLocked stamped mode).leaseTs = stamped &&& 0xFFFFFF#32 := by
    rw [HashBucket.leaseTs, word, acquireWord_eq, LockWord.leaseTs_pack _ _ _ (by decide)]
  rw [HashBucket.isExpired, locked, lease, Bool.true_and]
  simp only [BitVec.le_def, BitVec.toNat_sub, toNat_lease]

/-- The high byte of the stamp counts as time that has passed. -/
theorem isExpired_setLocked_after (recent : elapsed < 2 ^ 24) :
    (bucket.setLocked stamped mode).isExpired (stamped + BitVec.ofNat 32 elapsed) timeoutMs =
      decide (timeoutMs.toNat ≤ 2 ^ 24 * Eras.era (2 ^ 24) stamped.toNat + elapsed) := by
  have bound := stamped.isLt
  have clock : (stamped + BitVec.ofNat 32 elapsed).toNat = (stamped.toNat + elapsed) % 2 ^ 32 := by
    rw [BitVec.toNat_add, BitVec.toNat_ofNat, Nat.add_mod_mod]
  rw [isExpired_setLocked, clock, Eras.reading, Eras.era]
  congr 2
  omega

/-- The bucket's own lease test is right for a stamp exactly if the stamp fits the 24 bits of the lease, or
the timeout is over anyway. -/
theorem own_lease_test_right_iff (bucket : HashBucket) (stamped : BitVec 32) (mode : BucketMode)
    (elapsed : ℕ) (timeoutMs : BitVec 32) (recent : elapsed < 2 ^ 24) (short : timeoutMs.toNat < 2 ^ 24) :
    ((bucket.setLocked stamped mode).isExpired (stamped + BitVec.ofNat 32 elapsed) timeoutMs = true ↔
        timeoutMs.toNat ≤ elapsed) ↔
      stamped.toNat < 2 ^ 24 ∨ timeoutMs.toNat ≤ elapsed := by
  rw [isExpired_setLocked_after recent, decide_eq_true_eq, Eras.era]
  omega

/-- Fifty and a hundred milliseconds after a small stamp. -/
theorem own_lease_test_right_of_small_stamp :
    (HashBucket.zeroed.setLocked 1000 .extent).isExpired (1000 + BitVec.ofNat 32 50) 100 = false ∧
      (HashBucket.zeroed.setLocked 1000 .extent).isExpired (1000 + BitVec.ofNat 32 100) 100 = true := by
  have early := own_lease_test_right_iff .zeroed 1000 .extent 50 100 (by decide) (by decide)
  have late := own_lease_test_right_iff .zeroed 1000 .extent 100 100 (by decide) (by decide)
  exact ⟨Bool.eq_false_iff.mpr fun expired => absurd ((early.mpr (.inl (by decide))).mp expired) (by decide),
    (late.mpr (.inl (by decide))).mpr (by decide)⟩

/-- A lock that was stamped this very millisecond, from the 2 ^ 24th on, has expired by the bucket's own
test. -/
theorem fresh_lock_expired_by_own_test :
    (HashBucket.zeroed.setLocked 0x1000000 .inline).isExpired 0x1000000 leaseTimeoutMs = true := by
  decide

end OwnTest

end Rdmas.Soundness
