import Rdmas.Soundness.ClientRead
import Rdmas.Soundness.LockEffects

/-! # Deletions under the lock protocol

A deletion is a bit of the lock word; the key stays in the bucket. Acquiring, releasing and taking over a
lock each store a word without that bit, so a lock taken on a tombstone, or released after its key was
deleted, brings the key back. The table is shared by callers of its own operations and by clients that
lock its buckets; the keys deleted and not written since are remembered next to it.
-/

namespace Rdmas.Soundness

open Rdmas.Model LittleEndian FixedBytes ClientReader Runs

/-- Every bucket that bears a key, live or deleted, is one of the key's homes. -/
def Homed (table : CuckooTable) : Prop :=
  ∀ idx < table.bucketCount, (table.bucket idx).keyHash ≠ 0 →
    IsHome table (table.bucket idx).toEntry.key idx

/-- No bucket answers for the key. -/
def Silent (table : CuckooTable) (key : HashedKey) : Prop :=
  ∀ idx < table.bucketCount, table.answers key idx = false

/-- Neither `lookup` nor a client's read returns the key. -/
def Unread (table : CuckooTable) (key : HashedKey) : Prop :=
  table.lookup key = none ∧ ∀ largeObjects,
    ClientReader.get key table.buckets largeObjects table.bucketCount = .ok none

section Reads

variable {table : CuckooTable} {key : HashedKey}

theorem Homed.placed (homed : Homed table) : Placed table := by
  intro idx bound entry live
  obtain ⟨_, rfl⟩ := entryOf_eq_some.mp live
  exact homed idx bound (hash_ne_zero_of_live live)

/-- A bucket that answers for a real key is one of its homes. -/
theorem Homed.isHome (homed : Homed table) {idx : ℕ} (bound : idx < table.bucketCount)
    (nonzero : key.hash ≠ 0) (answer : table.answers key idx = true) : IsHome table key idx := by
  obtain ⟨same, _⟩ := answers_eq_true.mp answer
  have borne : (table.bucket idx).keyHash ≠ 0 := fun zero =>
    nonzero ((congrArg HashedKey.hash same).symm.trans zero)
  exact same ▸ homed idx bound borne

private theorem homed_new (bucketCount maxKick : ℕ) (powerOfTwo : bucketCount.isPowerOfTwo) :
    Homed (CuckooTable.new bucketCount maxKick powerOfTwo) := by
  intro idx _ borne
  rw [bucket_new] at borne
  exact absurd rfl borne

/-- A bucket that does not answer gives a client nothing. -/
theorem tryReadBucket_of_silent {idx : ℕ} (silent : table.answers key idx = false)
    (largeObjects : Option LargeObjectRegion) :
    tryReadBucket key table.buckets largeObjects idx = none := by
  have slot : table.buckets.getD idx HashBucket.zeroed = table.bucket idx := rfl
  simp only [CuckooTable.answers, Bool.and_eq_false_iff, Bool.not_eq_false'] at silent
  simp only [tryReadBucket, slot]
  rcases silent with differs | tomb
  · simp [differs]
  · simp [tomb]

/-- Reads look at the homes only, and a key is borne nowhere else. -/
theorem unread_iff (two : 2 ≤ table.bucketCount) (homed : Homed table) (nonzero : key.hash ≠ 0) :
    Unread table key ↔ Silent table key := by
  constructor
  · rintro ⟨missing, _⟩ idx bound
    have scanned := List.find?_eq_none.mp (Option.map_eq_none_iff.mp missing)
    rw [Bool.eq_false_iff]
    intro answer
    exact scanned idx (mem_homes.mpr (homed.isHome bound nonzero answer)) answer
  · intro silent
    have first := silent _ (table.h1_lt key.hash)
    have second := silent _ (table.h2_lt two key.hash)
    refine ⟨?_, fun largeObjects => ?_⟩
    · simp [CuckooTable.lookup, CuckooTable.findKeyIdx, first, second]
    · rw [get_eq_or two nonzero, tryReadBucket_of_silent first, tryReadBucket_of_silent second]
      rfl

private theorem silent_iff_absent (nonzero : key.hash ≠ 0) :
    Silent table key ↔ ∀ entry ∈ liveEntries table, entry.key ≠ key := by
  constructor
  · intro silent entry member same
    obtain ⟨idx, bound, live⟩ := mem_liveEntries.mp member
    exact absurd ((answers_iff nonzero).mpr ⟨entry, live, same⟩) (Bool.eq_false_iff.mp (silent idx bound))
  · intro absent idx bound
    rw [Bool.eq_false_iff]
    intro answer
    obtain ⟨entry, live, same⟩ := (answers_iff nonzero).mp answer
    exact absent entry (mem_liveEntries.mpr ⟨idx, bound, live⟩) same

private theorem answers_eq_false {idx : ℕ} : table.answers key idx = false ↔
    ¬ ((table.bucket idx).toEntry.key = key ∧ (table.bucket idx).isTombstone = false) := by
  rw [← answers_eq_true, Bool.not_eq_true]

/-- A store breaks the silence exactly if the new bucket answers. -/
theorem Silent.setBucket_iff (silent : Silent table key) {idx : ℕ} (bound : idx < table.bucketCount)
    (bucket : HashBucket) :
    Silent (table.setBucket idx bucket) key ↔
      ¬ (bucket.toEntry.key = key ∧ bucket.isTombstone = false) := by
  constructor
  · intro after
    have quiet := answers_eq_false.mp (after idx bound)
    rwa [table.bucket_setBucket bound, if_pos rfl] at quiet
  · intro quiet query queryBound
    rw [answers_eq_false, table.bucket_setBucket bound]
    split
    · exact quiet
    · exact answers_eq_false.mp (silent query queryBound)

end Reads

section Buckets

variable {ι ρ : Type} [DecidableEq ι] [DecidableEq ρ]

private theorem isTombstone_acquireWord (oldLv : BitVec 64) (now : BitVec 32) (mode : BucketMode) :
    LockWord.isTombstone (acquireWord oldLv now mode) = false := by
  rw [acquireWord_eq, LockWord.isTombstone_pack]
  rfl

private theorem isTombstone_releaseWord (mode : BucketMode) (version : BitVec 32) :
    LockWord.isTombstone (releaseWord mode version) = false := by
  rw [releaseWord_eq, LockWord.isTombstone_pack]
  rfl

/-- What a step of the lock machine does to the key and the tombstone bit of its bucket: a stored word
clears the bit under the same key, and any other step keeps the bit. -/
theorem bucket_of_step {state next : LockState ι ρ} {label : LockLabel ι ρ}
    (taken : state.step label = some next) :
    (storesWord state label = true ∧ writesKey label = false ∧ next.bucket.isTombstone = false ∧
        next.bucket.toEntry.key = state.bucket.toEntry.key) ∨
      (storesWord state label = false ∧ next.bucket.isTombstone = state.bucket.isTombstone ∧
        (writesKey label = false → next.bucket.toEntry.key = state.bucket.toEntry.key)) := by
  cases effect_of_step taken with
  | settle client pc outside stays fresh other keeps => exact .inr ⟨keeps, rfl, fun _ => rfl⟩
  | acquire client now mode oldLv at_ current =>
    refine .inl ⟨by simp [storesWord, at_, current], rfl, isTombstone_acquireWord _ _ _, ?_⟩
    simp only [LockState.acquire]
    split <;> rfl
  | write client prev takenOver bucket at_ same other keeps key =>
    exact .inr ⟨keeps, congrArg LockWord.isTombstone same,
      fun unwritten => by simp [HashBucket.toEntry, key unwritten]⟩
  | release client mode prev takenOver at_ =>
    refine .inl ⟨by simp [storesWord, at_, ClientPc.isHolding], rfl, ?_, rfl⟩
    exact isTombstone_releaseWord _ _
  | force now timeoutMs judged => exact .inl ⟨judged, rfl, isTombstone_releaseWord _ _, rfl⟩
  | refuse now timeoutMs spared => exact .inr ⟨spared, rfl, fun _ => rfl⟩
  | observe => exact .inr ⟨rfl, rfl, fun _ => rfl⟩

/-- The stored hash changes only by a write of it. -/
theorem keyHash_of_step {state next : LockState ι ρ} {label : LockLabel ι ρ}
    (taken : state.step label = some next) :
    next.bucket.keyHash = state.bucket.keyHash ∨
      ∃ client, label = .writeKeyHash client next.bucket.keyHash := by
  cases label with
  | writeKeyHash client keyHash =>
    simp only [LockState.step] at taken
    split at taken
    · cases taken
      exact .inr ⟨client, rfl⟩
    · cases taken
  | writeDigest client digest =>
    simp only [LockState.step] at taken
    split at taken
    · cases taken
      exact .inl rfl
    · cases taken
  | _ =>
    left
    have same : next.bucket.toEntry.key = state.bucket.toEntry.key := by
      rcases bucket_of_step taken with ⟨_, _, _, same⟩ | ⟨_, _, same⟩
      · exact same
      · exact same rfl
    exact congrArg HashedKey.hash same

private theorem step_of_storesWord {state : LockState ι ρ} {label : LockLabel ι ρ}
    (stores : storesWord state label = true) : ∃ next, state.step label = some next := by
  cases label with
  | casLock client now =>
    simp only [storesWord] at stores
    split at stores
    · next at_ =>
        simp only [LockState.step, at_]
        split <;> exact ⟨_, rfl⟩
    · cases stores
  | releaseLock client mode =>
    simp only [storesWord, ClientPc.isHolding] at stores
    split at stores
    · next at_ =>
        simp only [LockState.step, at_]
        exact ⟨_, rfl⟩
    · cases stores
  | forceTakeover now timeoutMs =>
    simp only [LockState.step, forceTakeover_expired stores]
    exact ⟨_, rfl⟩
  | _ => cases stores

end Buckets

section Calls

variable {table : CuckooTable} {key : HashedKey}

theorem IsHome.congr {left right : CuckooTable} {idx : ℕ} (same : left.bucketCount = right.bucketCount)
    (home : IsHome left key idx) : IsHome right key idx := by
  simpa only [IsHome, CuckooTable.h1, CuckooTable.h2, same] using home

/-- A call of the table moves keys between their homes only. -/
theorem Homed.apply (homed : Homed table) (two : 2 ≤ table.bucketCount) (op : TableOp) :
    Homed (op.apply table).1 := by
  intro idx bound borne
  have count : (op.apply table).1.bucketCount = table.bucketCount := op.bucketCount_apply
  have effect : (op.apply table).1.bucket idx = _ ∨ _ := op.bucket_apply idx
  rcases effect with same | ⟨entry, stored⟩ | ⟨_, _, _, buried⟩
  · rw [same] at borne ⊢
    exact (homed idx (count ▸ bound) borne).congr count.symm
  · rw [stored] at borne ⊢
    have placed := op.placed_apply two homed.placed
    exact placed idx bound entry (stored ▸ entryOf_toBucket borne)
  · rw [buried] at borne ⊢
    exact (homed idx (count ▸ bound) borne).congr count.symm

/-- A key that nobody answers for stays so while others are written. -/
theorem Silent.apply (silent : Silent table key) (two : 2 ≤ table.bucketCount) (placed : Placed table)
    (nonzero : key.hash ≠ 0) {op : TableOp}
    (others : ∀ entry, op.storedEntry = some entry → entry.key ≠ key) :
    Silent (op.apply table).1 key := by
  rw [silent_iff_absent nonzero] at silent ⊢
  intro entry member
  rcases op.mem_liveEntries_apply two placed member with old | own
  · exact silent entry old
  · exact others entry own

/-- A deletion silences its key exactly if the other home does not answer for it too. -/
theorem silent_delete_iff (homed : Homed table) (two : 2 ≤ table.bucketCount) (nonzero : key.hash ≠ 0) :
    Silent (table.delete key).1 key ↔ ∀ idx ∈ table.findKeyIdx key,
      ∀ other ∈ [table.h1 key.hash, table.h2 key.hash], other ≠ idx → table.answers key other = false := by
  cases found : table.findKeyIdx key with
  | none =>
    have unchanged : (table.delete key).1 = table := by simp only [CuckooTable.delete, found]
    rw [unchanged, silent_iff_absent nonzero]
    refine iff_of_true (findKeyIdx_eq_none homed.placed nonzero found) fun idx member => ?_
    cases member
  | some idx =>
    have bound := (findKeyIdx_isHome found).lt two
    have marked : (table.delete key).1 = table.setBucket idx (table.bucket idx).markTombstone := by
      simp only [CuckooTable.delete, found]
    have count : (table.delete key).1.bucketCount = table.bucketCount := by
      rw [marked]
      rfl
    have answers : ∀ query, (table.delete key).1.answers key query =
        if idx = query then false else table.answers key query := by
      intro query
      simp only [marked, CuckooTable.answers, table.bucket_setBucket bound]
      split <;> simp
    simp only [Option.mem_some_iff, forall_eq', Silent, answers]
    constructor
    · intro silent other home differs
      have still := silent other (count ▸ (mem_homes.mp home).lt two)
      rwa [if_neg (Ne.symm differs)] at still
    · intro once query queryBound
      split
      · rfl
      · next differs =>
          rw [Bool.eq_false_iff]
          intro answer
          have home := homed.isHome (count ▸ queryBound) nonzero answer
          rw [once query (mem_homes.mpr home) (Ne.symm differs)] at answer
          cases answer

end Calls

/-- Calls on the table, and steps of the clients that lock one of its buckets. -/
inductive SharedLabel (ι : Type) where
  | call (op : TableOp)
  | lock (idx : ℕ) (label : LockLabel ι Empty)

/-- A table, where the clients of each bucket's lock stand, and the keys that were deleted and not written
since. -/
structure SharedTable (ι : Type) where
  table : CuckooTable
  clients : ℕ → ι → ClientPc
  deleted : Finset HashedKey

namespace SharedTable

variable {ι : Type}

/-- Nobody has started, and nothing was deleted. -/
def fresh (table : CuckooTable) : SharedTable ι := ⟨table, fun _ _ => .idle, ∅⟩

/-- The lock machine of one bucket. -/
def lockState (state : SharedTable ι) (idx : ℕ) : LockState ι Empty :=
  ⟨state.table.bucket idx, state.clients idx, nofun, []⟩

/-- A client writes keys into their homes only, or clears the hash. -/
def Fits (table : CuckooTable) (idx : ℕ) : LockLabel ι Empty → Prop
  | .writeKeyHash _ keyHash => keyHash = 0 ∨ idx = table.h1 keyHash ∨ idx = table.h2 keyHash
  | _ => True

instance (table : CuckooTable) (idx : ℕ) : (label : LockLabel ι Empty) → Decidable (Fits table idx label)
  | .writeKeyHash _ _ => inferInstanceAs (Decidable (_ ∨ _ ∨ _))
  | .tryAcquire _ _ | .loadLock _ _ | .casLock _ _ | .writeDigest _ _ | .writeBody _ _
  | .releaseLock _ _ | .forceTakeover _ _ | .read _ _ => isTrue trivial

/-- The deleted keys after a call: an insertion writes its key again, whatever it returns. The reserved
hash belongs to no key. -/
def noteCall (deleted : Finset HashedKey) : TableOp → Finset HashedKey
  | .delete key => if key.hash = 0 then deleted else insert key deleted
  | op => deleted.erase op.key

variable [DecidableEq ι]

/-- One step. A holder that changes a part of the key in its bucket writes the key that results. -/
def step (state : SharedTable ι) : SharedLabel ι → Option (SharedTable ι)
  | .call op => some ⟨(op.apply state.table).1, state.clients, noteCall state.deleted op⟩
  | .lock idx label =>
      if idx < state.table.bucketCount ∧ Fits state.table idx label then
        ((state.lockState idx).step label).map fun next =>
          ⟨state.table.setBucket idx next.bucket, Function.update state.clients idx next.clients,
            if writesKey label then state.deleted.erase next.bucket.toEntry.key else state.deleted⟩
      else none

/-- After the step, no deleted key is returned. -/
def DeletionsHold (state : SharedTable ι) (label : SharedLabel ι) : Prop :=
  ∀ next, state.step label = some next → ∀ key ∈ next.deleted, Unread next.table key

/-- A deletion finds its key in one home only, and no lock word is stored into the tombstone of a deleted
key. -/
def SparesDeleted (state : SharedTable ι) : SharedLabel ι → Prop
  | .call (.delete key) => key.hash ≠ 0 → ∀ idx ∈ state.table.findKeyIdx key,
      ∀ other ∈ [state.table.h1 key.hash, state.table.h2 key.hash], other ≠ idx →
        state.table.answers key other = false
  | .call _ => True
  | .lock idx label => storesWord (state.lockState idx) label = true →
      (state.table.bucket idx).isTombstone = true →
      (state.table.bucket idx).toEntry.key ∉ state.deleted

instance (state : SharedTable ι) : (label : SharedLabel ι) → Decidable (state.SparesDeleted label)
  | .call (.delete _) => inferInstanceAs (Decidable (_ → ∀ idx ∈ _, ∀ other ∈ _, _))
  | .call (.insert _ _ _) => isTrue trivial
  | .call (.insertExtent _ _ _) => isTrue trivial
  | .lock _ _ => inferInstanceAs (Decidable (_ → _ → _))

/-- Keys are borne by their homes only, and nobody answers for a deleted key. -/
structure Guarded (state : SharedTable ι) : Prop where
  two : 2 ≤ state.table.bucketCount
  homed : Homed state.table
  real : ∀ key ∈ state.deleted, key.hash ≠ 0
  silent : ∀ key ∈ state.deleted, Silent state.table key

variable {state next : SharedTable ι}

omit [DecidableEq ι] in
/-- What a call of the table does. -/
theorem Guarded.call (guarded : Guarded state) (op : TableOp) :
    (∀ key ∈ noteCall state.deleted op, key.hash ≠ 0) ∧
      ((∀ key ∈ noteCall state.deleted op, Silent (op.apply state.table).1 key) ↔
        state.SparesDeleted (.call op)) := by
  have others : ∀ key ∈ state.deleted, (∀ entry, op.storedEntry = some entry → entry.key ≠ key) →
      Silent (op.apply state.table).1 key := fun key member differs =>
    (guarded.silent key member).apply guarded.two guarded.homed.placed (guarded.real key member) differs
  have inserted : ∀ key ∈ state.deleted.erase op.key, Silent (op.apply state.table).1 key := by
    intro key member
    obtain ⟨differs, member⟩ := Finset.mem_erase.mp member
    refine others key member fun entry stores same => differs ?_
    rw [← same, op.key_of_storedEntry stores]
  cases op with
  | insert key value mode =>
    exact ⟨fun key member => guarded.real key (Finset.mem_of_mem_erase member),
      iff_of_true inserted trivial⟩
  | insertExtent key offset length =>
    exact ⟨fun key member => guarded.real key (Finset.mem_of_mem_erase member),
      iff_of_true inserted trivial⟩
  | delete key =>
    simp only [noteCall, SparesDeleted]
    by_cases zero : key.hash = 0
    · rw [if_pos zero]
      exact ⟨guarded.real, iff_of_true (fun key member => others key member nofun) fun nonzero =>
        absurd zero nonzero⟩
    · rw [if_neg zero, Finset.forall_mem_insert, Finset.forall_mem_insert]
      refine ⟨⟨zero, guarded.real⟩, ?_⟩
      rw [and_iff_left fun key member => others key member nofun, forall_prop_of_true zero]
      exact silent_delete_iff guarded.homed guarded.two zero

/-- A client keeps keys in their homes. -/
theorem Guarded.homed_lock (guarded : Guarded state) {idx : ℕ} {label : LockLabel ι Empty}
    {after : LockState ι Empty} (bound : idx < state.table.bucketCount)
    (fits : Fits state.table idx label) (taken : (state.lockState idx).step label = some after) :
    Homed (state.table.setBucket idx after.bucket) := by
  intro query queryBound borne
  rw [state.table.bucket_setBucket bound] at borne ⊢
  split at borne
  · next here =>
      subst query
      rw [if_pos rfl]
      change idx = state.table.h1 after.bucket.keyHash ∨ idx = state.table.h2 after.bucket.keyHash
      rcases keyHash_of_step taken with same | ⟨client, rfl⟩
      · rw [same] at borne ⊢
        exact guarded.homed idx bound borne
      · exact fits.resolve_left borne
  · next elsewhere =>
      rw [if_neg elsewhere]
      exact guarded.homed query queryBound borne

/-- What a step of a client does: only a stored lock word can bring a deleted key back. -/
theorem Guarded.silent_lock (guarded : Guarded state) {idx : ℕ} {label : LockLabel ι Empty}
    {after : LockState ι Empty} (bound : idx < state.table.bucketCount)
    (taken : (state.lockState idx).step label = some after) :
    (∀ key ∈ if writesKey label then state.deleted.erase after.bucket.toEntry.key else state.deleted,
        Silent (state.table.setBucket idx after.bucket) key) ↔ state.SparesDeleted (.lock idx label) := by
  have quiet : ∀ key ∈ state.deleted,
      ¬ ((state.table.bucket idx).toEntry.key = key ∧ (state.table.bucket idx).isTombstone = false) :=
    fun key member => answers_eq_false.mp (guarded.silent key member idx bound)
  have stored := fun key member => (guarded.silent key member).setBucket_iff bound after.bucket
  rcases bucket_of_step taken with ⟨stores, unwritten, alive, same⟩ | ⟨unstored, kept, same⟩
  · have same : after.bucket.toEntry.key = (state.table.bucket idx).toEntry.key := same
    rw [unwritten, if_neg Bool.false_ne_true, SparesDeleted, forall_prop_of_true stores]
    constructor
    · intro silent tomb member
      exact (stored _ member).mp (silent _ member) ⟨same, alive⟩
    · intro spared key member
      rw [stored key member]
      rintro ⟨rfl, _⟩
      rw [same] at member
      cases tomb : (state.table.bucket idx).isTombstone with
      | true => exact spared tomb member
      | false => exact quiet _ member ⟨rfl, tomb⟩
  · refine iff_of_true ?_ fun stores => absurd stores (Bool.eq_false_iff.mp unstored)
    intro key member
    cases written : writesKey label with
    | true =>
      rw [written, if_pos rfl] at member
      obtain ⟨differs, member⟩ := Finset.mem_erase.mp member
      rw [stored key member]
      exact fun answer => differs answer.1.symm
    | false =>
      rw [written, if_neg Bool.false_ne_true] at member
      rw [stored key member, same written, kept]
      exact quiet key member

omit [DecidableEq ι] in
theorem fits_of_storesWord {table : CuckooTable} {idx : ℕ} {lock : LockState ι Empty}
    {label : LockLabel ι Empty} (stores : storesWord lock label = true) : Fits table idx label := by
  cases label with
  | writeKeyHash client keyHash => cases stores
  | _ => trivial

/-- Where keys are in their homes, a silent key is one that no read returns. -/
theorem deletionsHold_iff {label : SharedLabel ι} {spares : Prop} (taken : state.step label = some next)
    (two : 2 ≤ next.table.bucketCount) (homed : Homed next.table) (real : ∀ key ∈ next.deleted, key.hash ≠ 0)
    (silent : (∀ key ∈ next.deleted, Silent next.table key) ↔ spares) :
    (state.DeletionsHold label ↔ spares) ∧
      (spares → ∀ reached, state.step label = some reached → Guarded reached) := by
  have reads : (∀ key ∈ next.deleted, Unread next.table key) ↔ spares :=
    Iff.trans (forall₂_congr fun key member => unread_iff two homed (real key member)) silent
  simp only [DeletionsHold, taken, Option.some.injEq, forall_eq']
  exact ⟨reads, fun spared => ⟨two, homed, real, silent.mpr spared⟩⟩

/-- One step from a guarded state: no deleted key comes back exactly if the step spares them, and then
the next state is guarded. -/
theorem Guarded.step (guarded : Guarded state) (label : SharedLabel ι) :
    (state.DeletionsHold label ↔ state.SparesDeleted label) ∧
      (state.SparesDeleted label → ∀ next, state.step label = some next → Guarded next) := by
  cases label with
  | call op =>
    obtain ⟨real, silent⟩ := guarded.call op
    have count : (op.apply state.table).1.bucketCount = state.table.bucketCount := op.bucketCount_apply
    exact deletionsHold_iff rfl (count ▸ guarded.two) (guarded.homed.apply guarded.two op) real silent
  | lock idx label =>
    have disabled : state.step (.lock idx label) = none → state.SparesDeleted (.lock idx label) →
        (state.DeletionsHold (.lock idx label) ↔ state.SparesDeleted (.lock idx label)) ∧
          (state.SparesDeleted (.lock idx label) →
            ∀ next, state.step (.lock idx label) = some next → Guarded next) := by
      intro stuck spared
      simp only [DeletionsHold, stuck]
      exact ⟨iff_of_true nofun spared, fun _ => nofun⟩
    by_cases allowed : idx < state.table.bucketCount ∧ Fits state.table idx label
    · cases stepped : (state.lockState idx).step label with
      | none =>
        refine disabled (by simp only [SharedTable.step, if_pos allowed, stepped, Option.map_none]) ?_
        intro stores
        obtain ⟨after, enabled⟩ := step_of_storesWord stores
        rw [stepped] at enabled
        exact nomatch enabled
      | some after =>
        have taken : state.step (.lock idx label) = some ⟨state.table.setBucket idx after.bucket,
            Function.update state.clients idx after.clients,
            if writesKey label then state.deleted.erase after.bucket.toEntry.key else state.deleted⟩ := by
          simp only [SharedTable.step, if_pos allowed, stepped, Option.map_some]
        refine deletionsHold_iff taken guarded.two (guarded.homed_lock allowed.1 allowed.2 stepped) ?_
          (guarded.silent_lock allowed.1 stepped)
        intro key member
        refine guarded.real key ?_
        split at member
        · exact Finset.mem_of_mem_erase member
        · exact member
    · refine disabled (by simp only [SharedTable.step, if_neg allowed]) fun stores tomb => ?_
      -- Storing a word is refused beyond the table only, and there is no tombstone there.
      have beyond : state.table.buckets.length ≤ idx := by
        rw [state.table.sized]
        exact Nat.not_lt.mp fun bound => allowed ⟨bound, fits_of_storesWord stores⟩
      rw [CuckooTable.bucket, List.getD_eq_default _ _ beyond] at tomb
      exact absurd tomb (by decide)

end SharedTable

/-- In a run of insertions, deletions and clients locking buckets, from a table whose keys are in their
homes, no key that was deleted and not written since is ever returned, exactly if every deletion finds its
key in one home only and no lock is acquired, released or taken over on the tombstone of such a key. -/
theorem deletion_survives_locks_iff {ι : Type} [DecidableEq ι] (table : CuckooTable)
    (two : 2 ≤ table.bucketCount) (homed : Homed table) (labels : List (SharedLabel ι)) :
    Throughout SharedTable.step SharedTable.DeletionsHold (.fresh table) labels ↔
      Throughout SharedTable.step SharedTable.SparesDeleted (.fresh table) labels := by
  have initial : SharedTable.Guarded (.fresh table : SharedTable ι) :=
    ⟨two, homed, fun key member => absurd member (Finset.notMem_empty key),
      fun key member => absurd member (Finset.notMem_empty key)⟩
  have same : ∀ {state : SharedTable ι} {label : SharedLabel ι}, state.Guarded →
      (state.DeletionsHold label ↔ state.SparesDeleted label) := fun guarded => (guarded.step _).1
  exact throughout_congr same (fun guarded spared taken => (guarded.step _).2 spared _ taken) initial

/-- Key 2 is written, its bucket locked and released, and the key deleted: it stays deleted while another
key takes its bucket. -/
theorem deletion_survives_unlocked_bucket :
    let start : SharedTable Unit := .fresh (CuckooTable.new 2 16 ⟨1, rfl⟩)
    let labels : List (SharedLabel Unit) := [.call (.insert ⟨2, zeros 16⟩ [7] .inline),
      .lock 0 (.tryAcquire () .inline), .lock 0 (.loadLock () 5), .lock 0 (.casLock () 5),
      .lock 0 (.releaseLock () .inline), .call (.delete ⟨2, zeros 16⟩),
      .call (.insert ⟨4, zeros 16⟩ [9] .inline)]
    (run SharedTable.step start labels).map (fun final =>
        (final.table.lookup ⟨2, zeros 16⟩, final.table.lookup ⟨4, zeros 16⟩)) =
      some (none, some ⟨padded [9], .inline, 0, 0⟩) ∧
      Throughout SharedTable.step SharedTable.DeletionsHold start labels := by
  intro start labels
  refine ⟨by decide +kernel, ?_⟩
  exact (deletion_survives_locks_iff _ le_rfl (homed_new 2 16 ⟨1, rfl⟩) _).mpr (by decide +kernel)

/-- Key 2 is written and deleted. A client locks the tombstone and gives up: the key is back. -/
theorem aborted_lock_restores_deleted_key :
    let start : SharedTable Unit := .fresh (CuckooTable.new 2 16 ⟨1, rfl⟩)
    let key : HashedKey := ⟨2, zeros 16⟩
    let locked : List (SharedLabel Unit) := [.call (.insert key [7] .inline), .call (.delete key),
      .lock 0 (.tryAcquire () .inline), .lock 0 (.loadLock () 5), .lock 0 (.casLock () 5)]
    let labels := locked ++ [.lock 0 (.releaseLock () .inline)]
    (∃ final, run SharedTable.step start labels = some final ∧ key ∈ final.deleted ∧
      final.table.lookup key = some ⟨padded [7], .inline, 0, 0⟩ ∧
      ClientReader.get key final.table.buckets none 2 = .ok (some ⟨padded [7], .inline⟩)) ∧
    ¬ Throughout SharedTable.step SharedTable.DeletionsHold start labels := by
  intro start key locked labels
  have reached : ∃ final, run SharedTable.step start labels = some final ∧ key ∈ final.deleted ∧
      final.table.lookup key = some ⟨padded [7], .inline, 0, 0⟩ ∧
      ClientReader.get key final.table.buckets none 2 = .ok (some ⟨padded [7], .inline⟩) :=
    ⟨(run SharedTable.step start labels).get (by decide +kernel), (Option.some_get _).symm,
      by decide +kernel, by decide +kernel, by decide +kernel⟩
  refine ⟨reached, fun holds => ?_⟩
  obtain ⟨final, arrived, member, found, _⟩ := reached
  obtain ⟨middle, before, released⟩ := run_append_eq_some.mp arrived
  obtain ⟨next, taken, rest⟩ := run_cons_eq_some.mp released
  obtain rfl := Option.some.inj rest
  have unread := (holds.right before).1 next taken key member
  rw [unread.1] at found
  cases found

end Rdmas.Soundness
