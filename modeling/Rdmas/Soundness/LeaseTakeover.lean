import Rdmas.Soundness.OptimisticRead

/-! # Lease takeover

An expired lock may be taken over while its holder is stalled. `release_lock` stores its word without
looking at the bucket, so a holder that wakes up after a takeover can unlock the bucket under the new
owner and publish a version that was already published. The lock keeps its promises in exactly those
runs in which every release by a holder that lost its lock finds the bucket unlocked and the last
published version different from its own.
-/

namespace Rdmas.Soundness

open Rdmas.Model Runs Function

variable {ι ρ : Type} {state next : LockState ι ρ} {label : LockLabel ι ρ}

/-- Between acquire and release, with a lease nobody has judged expired and taken over. -/
def Owner (state : LockState ι ρ) (client : ι) : Prop :=
  ∃ prev, state.clients client = .holding prev false

section Properties

variable [DecidableEq ι] [DecidableEq ρ]

/-- What takeovers should preserve at a step: there is at most one owner, consecutive critical
sections publish different versions, and the release of a client that lost its lock does not unlock
the bucket under an owner. -/
def TakeoverSafe (state : LockState ι ρ) (label : LockLabel ι ρ) : Prop :=
  ∀ next, state.step label = some next →
    (∀ left right, Owner next left → Owner next right → left = right) ∧
    next.published.IsChain (· ≠ ·) ∧
    ∀ client mode prev, label = .releaseLock client mode →
      state.clients client = .holding prev true → ∀ owner, Owner state owner →
      next.bucket.isLocked = true

end Properties

/-- A release by a client that lost its lock finds the bucket unlocked, and the version it publishes is
not the one published last. -/
def HarmlessRelease (state : LockState ι ρ) (label : LockLabel ι ρ) : Prop :=
  ∀ client mode prev, label = .releaseLock client mode →
    state.clients client = .holding prev true →
    state.bucket.isLocked = false ∧ state.published.head? ≠ some (LockWord.version prev + 1)

/-- The lock belongs to its owner: the owner's word is in place, it is the only owner, a locked bucket
has an owner once anybody has entered, and the word carries the version published last. -/
structure Tenure (state : LockState ι ρ) : Prop where
  locked : ∀ client prev, state.clients client = .holding prev false →
    state.bucket.isLocked = true ∧ LockWord.version prev = state.bucket.version
  single : ∀ left right, Owner state left → Owner state right → left = right
  tenant : state.bucket.isLocked = true →
    (∃ client, Owner state client) ∨ ∀ client, (state.clients client).isHolding = false
  current : ∀ version, state.published.head? = some version → state.bucket.version = version
  chain : state.published.IsChain (· ≠ ·)

private theorem tenure_initial (bucket : HashBucket) :
    Tenure (LockState.initial bucket : LockState ι ρ) where
  locked _ _ found := nomatch found
  single _ _ owner := nomatch owner.choose_spec
  tenant _ := .inr fun _ => rfl
  current _ found := nomatch found
  chain := .nil

/-- An unlocked bucket has no owner. -/
theorem Tenure.no_owner (tenure : Tenure state) (unlocked : state.bucket.isLocked = false)
    (client : ι) : ¬ Owner state client := by
  rintro ⟨prev, found⟩
  rw [(tenure.locked client prev found).1] at unlocked
  contradiction

/-- Clients that were evicted own nothing. -/
theorem no_owner_evictHolders (state : LockState ι ρ) (client : ι) (prev : BitVec 64) :
    state.evictHolders.clients client ≠ .holding prev false := by
  intro owns
  simp only [LockState.evictHolders] at owns
  split at owns
  · exact absurd (ClientPc.holding.inj owns).2 (by decide)
  · next others => exact others prev false owns

/-- Publishing the successor of the current version, or any version but the last, keeps the chain. -/
theorem chain_publish {published : List (BitVec 32)} {version : BitVec 32}
    (chain : published.IsChain (· ≠ ·)) (differs : published.head? ≠ some version) :
    (version :: published).IsChain (· ≠ ·) := by
  cases published with
  | nil => exact .singleton version
  | cons last rest =>
    refine .cons_cons (fun same => differs ?_) chain
    rw [same, List.head?_cons]

theorem Tenure.successor_differs (tenure : Tenure state) :
    state.published.head? ≠ some (state.bucket.version + 1) := by
  intro last
  have same := tenure.current _ last
  exact absurd (BitVec.self_eq_add_right.mp same) (by decide)

/-- A store that unlocks the bucket and leaves no owner, publishing a version other than the last. -/
theorem tenure_unlock {published : List (BitVec 32)} {version : BitVec 32}
    (chain : published.IsChain (· ≠ ·)) (differs : published.head? ≠ some version)
    (stored : next.published = version :: published) (unlocked : next.bucket.isLocked = false)
    (current : next.bucket.version = version) (nobody : ∀ client, ¬ Owner next client) :
    Tenure next where
  locked client prev found := absurd ⟨prev, found⟩ (nobody client)
  single left _ owner := absurd owner (nobody left)
  tenant locked := by
    rw [unlocked] at locked
    contradiction
  current latest found := by
    rw [stored, List.head?_cons, Option.some.injEq] at found
    exact current.trans found
  chain := stored ▸ chain_publish chain differs

section Steps

variable [DecidableEq ι]

theorem Tenure.settle (tenure : Tenure state) {client : ι} {pc : ClientPc}
    (outside : (state.clients client).isHolding = false) (stays : pc.isHolding = false) :
    Tenure (state.setClient client pc) := by
  have holding : ∀ other prev takenOver, (state.setClient client pc).clients other =
      .holding prev takenOver ↔ state.clients other = .holding prev takenOver := by
    intro other prev takenOver
    simp only [LockState.setClient, update_apply]
    split
    · next same =>
        subst same
        constructor
        · rintro rfl
          contradiction
        · intro found
          rw [found] at outside
          contradiction
    · exact Iff.rfl
  have owners : ∀ other, Owner (state.setClient client pc) other ↔ Owner state other :=
    fun other => exists_congr fun prev => holding other prev false
  refine ⟨fun other prev found => tenure.locked other prev ((holding other prev false).mp found),
    fun left right leftOwner rightOwner =>
      tenure.single left right ((owners left).mp leftOwner) ((owners right).mp rightOwner),
    fun locked => ?_, tenure.current, tenure.chain⟩
  rcases tenure.tenant locked with ⟨owner, owns⟩ | nobody
  · exact .inl ⟨owner, (owners owner).mpr owns⟩
  · refine .inr fun other => ?_
    simp only [LockState.setClient, update_apply]
    split
    · exact stays
    · exact nobody other

/-- Whoever swaps in is the only owner: over a locked word all others have lost the lock, and over an
unlocked one there was no owner. -/
theorem Tenure.acquire (tenure : Tenure state) {oldLv : BitVec 64}
    (swapped : state.bucket.lockVersion = oldLv) (client : ι) (mode : BucketMode)
    (now : BitVec 32) : Tenure (state.acquire client mode oldLv now) := by
  have owners : ∀ other prev, (state.acquire client mode oldLv now).clients other =
      .holding prev false → other = client ∧ prev = oldLv := by
    intro other prev found
    simp only [LockState.acquire, LockState.setClient, LockState.setLock, update_apply]
      at found
    split at found
    · next same => exact ⟨same, (ClientPc.holding.inj found).1.symm⟩
    · split at found
      · exact absurd found (no_owner_evictHolders state other prev)
      · next unlocked =>
          refine absurd ⟨prev, found⟩ (tenure.no_owner ?_ other)
          rw [HashBucket.isLocked, swapped]
          exact Bool.eq_false_iff.mpr unlocked
  have own : Owner (state.acquire client mode oldLv now) client :=
    ⟨oldLv, by simp [LockState.acquire, LockState.setClient]⟩
  have published : (state.acquire client mode oldLv now).published = state.published := by
    simp only [LockState.acquire]
    split <;> rfl
  have version : (state.acquire client mode oldLv now).bucket.version = state.bucket.version := by
    rw [HashBucket.version, HashBucket.version, LockState.acquire_lockVersion, version_acquireWord,
      swapped]
  refine ⟨?_, ?_, fun _ => .inl ⟨client, own⟩, ?_, ?_⟩
  · intro other prev found
    obtain ⟨_, rfl⟩ := owners other prev found
    rw [version, HashBucket.version, swapped]
    exact ⟨isLocked_acquireWord prev now mode, rfl⟩
  · rintro left right ⟨_, leftAt⟩ ⟨_, rightAt⟩
    exact (owners left _ leftAt).1.trans (owners right _ rightAt).1.symm
  · rw [published, version]
    exact tenure.current
  · rw [published]
    exact tenure.chain

theorem Tenure.release (tenure : Tenure state) {client : ι} {prev : BitVec 64} {takenOver : Bool}
    (found : state.clients client = .holding prev takenOver) (mode : BucketMode)
    (harmless : HarmlessRelease state (.releaseLock client mode)) :
    Tenure (state.release client mode prev) := by
  have others : ∀ other, Owner (state.release client mode prev) other →
      other ≠ client ∧ Owner state other := by
    rintro other ⟨otherPrev, owns⟩
    simp only [LockState.release, LockState.setClient, LockState.setLock, update_apply]
      at owns
    split at owns
    · contradiction
    · next differs => exact ⟨differs, otherPrev, owns⟩
  have unlocked : (state.release client mode prev).bucket.isLocked = false :=
    isLocked_releaseWord (LockWord.version prev) mode
  have version : (state.release client mode prev).bucket.version = LockWord.version prev + 1 :=
    version_releaseWord (LockWord.version prev) mode
  cases takenOver with
  | false =>
    have acquired := (tenure.locked client prev found).2
    refine tenure_unlock tenure.chain (acquired ▸ tenure.successor_differs) rfl unlocked version ?_
    intro other owns
    obtain ⟨differs, owned⟩ := others other owns
    exact differs (tenure.single other client owned ⟨prev, found⟩)
  | true =>
    obtain ⟨wasUnlocked, differs⟩ := harmless client mode prev rfl found
    refine tenure_unlock tenure.chain differs rfl unlocked version ?_
    intro other owns
    exact tenure.no_owner wasUnlocked other (others other owns).2

variable [DecidableEq ρ]

/-- Harmless releases keep the tenure. -/
theorem Tenure.step (tenure : Tenure state) (harmless : HarmlessRelease state label)
    (taken : state.step label = some next) : Tenure next := by
  cases effect_of_step taken with
  | settle client pc outside stays fresh other => exact tenure.settle outside stays
  | acquire client now mode oldLv found swapped => exact tenure.acquire swapped client mode now
  | write client prev takenOver bucket found same other =>
    refine ⟨?_, tenure.single, ?_, ?_, tenure.chain⟩
    · simpa only [HashBucket.isLocked, HashBucket.version, same] using tenure.locked
    · intro locked
      exact tenure.tenant (by rw [HashBucket.isLocked, ← same]; exact locked)
    · simpa only [HashBucket.version, same] using tenure.current
  | release client mode prev takenOver found => exact tenure.release found mode harmless
  | force now timeoutMs judged =>
    refine tenure_unlock tenure.chain tenure.successor_differs rfl
      (isLocked_releaseWord _ _) (version_releaseWord _ _) ?_
    rintro client ⟨prev, owns⟩
    exact no_owner_evictHolders state client prev owns
  | refuse now timeoutMs => exact tenure
  | observe reader action pc moved =>
    exact ⟨tenure.locked, tenure.single, tenure.tenant, tenure.current, tenure.chain⟩

/-- Where the lock belongs to its owner, a step is safe exactly if it makes no harmful release. -/
theorem Tenure.takeoverSafe_iff (tenure : Tenure state) :
    TakeoverSafe state label ↔ HarmlessRelease state label := by
  constructor
  · rintro safe client mode prev rfl found
    have taken : state.step (.releaseLock client mode) = some (state.release client mode prev) := by
      simp only [LockState.step, found]
    obtain ⟨_, chain, keepsLocked⟩ := safe _ taken
    refine ⟨?_, ?_⟩
    · rw [Bool.eq_false_iff]
      intro locked
      rcases tenure.tenant locked with ⟨owner, owns⟩ | nobody
      · have stillLocked := keepsLocked client mode prev rfl found owner owns
        rw [HashBucket.isLocked, LockState.release_lockVersion, isLocked_releaseWord] at stillLocked
        contradiction
      · have outside := nobody client
        rw [found] at outside
        contradiction
    · intro last
      cases earlier : state.published with
      | nil => simp [earlier] at last
      | cons version rest =>
        rw [earlier, List.head?_cons, Option.some.injEq] at last
        simp [LockState.release, earlier, last] at chain
  · intro harmless next taken
    have kept := tenure.step harmless taken
    refine ⟨kept.single, kept.chain, ?_⟩
    intro client mode prev released found owner owns
    exact absurd owns (tenure.no_owner (harmless client mode prev released found).1 owner)

end Steps

end Rdmas.Soundness
